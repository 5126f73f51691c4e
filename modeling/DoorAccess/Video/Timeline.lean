import DoorAccess.Video.Flv

/-!
# The time axis of the stream

The timestamps of the written tags and the sequence headers between them, in terms of the units
received. A segment is a run of units of one epoch: its first unit sets the zero of its RTP times,
and its place on the time axis begins `SEGMENT_GAP_MS` after everything written before.

The sequence header of a segment is written late, before the first IDR, but with the time at which
the segment begins. Pictures of the segment that came before that IDR have been written with later
times by then: this is the one place where the time axis goes back.
-/

set_option autoImplicit false
set_option relaxedAutoImplicit false

namespace DoorAccess.Video

open Records

/-- The timestamp of a written tag: its bytes 4 to 6, below byte 7. -/
def tagTimestamp (bytes : List UInt8) : ℕ :=
  value ((bytes.drop 7).take 1 ++ (bytes.drop 4).take 3)

theorem tagTimestamp_bytes (t : Tag) : tagTimestamp t.bytes = t.timestamp.toNat :=
  value_timestamp t.timestamp

namespace Segment

variable {seg : Segment} {n : NalUnit} {nals : List NalUnit}

/-! ### Facts about one unit -/

@[simp] theorem changeSegment_epoch (seg : Segment) (n : NalUnit) :
    (seg.changeSegment n).currentEpoch = n.streamEpoch := by
  unfold changeSegment
  split_ifs with hchange
  · rfl
  · exact (not_ne_iff.mp hchange).symm

theorem changeSegment_of_ne (h : n.streamEpoch ≠ seg.currentEpoch) :
    seg.changeSegment n =
      { seg with
        currentEpoch := n.streamEpoch
        baseRtpTimestamp := n.timestamp
        baseRtpSet := true
        segmentBaseFlv := saturatingAdd seg.lastFlvTs SEGMENT_GAP_MS
        lastFlvTs := saturatingAdd seg.lastFlvTs SEGMENT_GAP_MS
        pendingSeqHeader := true } :=
  if_pos h

theorem changeSegment_of_eq (h : n.streamEpoch = seg.currentEpoch) : seg.changeSegment n = seg :=
  if_neg (not_ne_iff.mpr h)

/-- Once the segment has begun, the unit does not begin it again. -/
theorem changeSegment_idem (seg : Segment) (n : NalUnit) :
    (seg.changeSegment n).changeSegment n = seg.changeSegment n :=
  changeSegment_of_eq (changeSegment_epoch seg n).symm

theorem tags_changeSegment (seg : Segment) (n : NalUnit) :
    (seg.changeSegment n).tags n = seg.tags n := by
  unfold tags
  rw [changeSegment_idem]

theorem next_changeSegment (seg : Segment) (n : NalUnit) :
    (seg.changeSegment n).next n = seg.next n := by
  unfold next
  rw [changeSegment_idem]

/-- The time of a unit on the axis of its segment. -/
def stamp (seg : Segment) (n : NalUnit) : UInt32 :=
  saturatingAdd seg.segmentBaseFlv ((n.timestamp - seg.baseRtpTimestamp) / 90)

/-- The update of the high-water mark. -/
def highWater (last out : UInt32) : UInt32 :=
  if last < out then out else last

theorem toNat_highWater (last out : UInt32) :
    (highWater last out).toNat = max last.toNat out.toNat := by
  unfold highWater
  split_ifs with hlt
  · have hle : last.toNat < out.toNat := hlt
    omega
  · have hle : ¬last.toNat < out.toNat := hlt
    omega

/-- What `relative_flv_timestamp` does once the seed has been read. -/
theorem relativeFlvTimestamp_of_cached (h : seg.Cached) (n : NalUnit) :
    seg.relativeFlvTimestamp n.timestamp =
      (seg.stamp n, { seg with lastFlvTs := highWater seg.lastFlvTs (seg.stamp n) }) := by
  unfold relativeFlvTimestamp highWater stamp
  rw [if_neg (by rw [h.2.2]; exact Bool.noConfusion)]
  dsimp only
  split_ifs
  · rfl
  · rfl

theorem tags_of_cached (h : seg.Cached) (hpicture : n.isParameterSet = false) :
    seg.tags n = (seg.changeSegment n).headerTags n ++
      [⟨(seg.changeSegment n).stamp n, naluBody [n]⟩] := by
  rw [tags_of_picture seg hpicture,
    relativeFlvTimestamp_of_cached (changeSegment_cached h n)]

/-- All that one unit does to the fields. -/
theorem next_eq (h : seg.Cached) (n : NalUnit) :
    seg.next n =
      { seg.changeSegment n with
        segSps := if n.nalType = NAL_TYPE_SPS then some n.data else seg.segSps
        segPps := if n.nalType = NAL_TYPE_PPS then some n.data else seg.segPps
        pendingSeqHeader :=
          (seg.changeSegment n).pendingSeqHeader && !decide (n.nalType = NAL_TYPE_IDR)
        lastFlvTs :=
          if n.isParameterSet = true then (seg.changeSegment n).lastFlvTs
          else highWater (seg.changeSegment n).lastFlvTs ((seg.changeSegment n).stamp n) } := by
  obtain ⟨hsps, hpps⟩ := changeSegment_sets seg n
  have hchanged := changeSegment_cached h n
  unfold next
  dsimp only
  by_cases htype : n.nalType = NAL_TYPE_SPS
  · simp [htype, NalUnit.isParameterSet, ← hpps, NAL_TYPE_SPS, NAL_TYPE_PPS, NAL_TYPE_IDR]
  · by_cases htype' : n.nalType = NAL_TYPE_PPS
    · simp [htype', NalUnit.isParameterSet, ← hsps, NAL_TYPE_SPS, NAL_TYPE_PPS, NAL_TYPE_IDR]
    · rw [relativeFlvTimestamp_pending, relativeFlvTimestamp_of_cached hchanged]
      simp [htype, htype', NalUnit.isParameterSet, ← hsps, ← hpps]

/-! ### The high-water mark -/

/-- The axis of the segment begins below the high-water mark. -/
structure OnAxis (seg : Segment) : Prop where
  cached : seg.Cached
  base_le : seg.segmentBaseFlv.toNat ≤ seg.lastFlvTs.toNat

theorem base_le_stamp (seg : Segment) (n : NalUnit) :
    seg.segmentBaseFlv.toNat ≤ (seg.stamp n).toNat := by
  have hlt := seg.segmentBaseFlv.toNat_lt
  rw [stamp, toNat_saturatingAdd]
  omega

theorem OnAxis.changeSegment (h : seg.OnAxis) (n : NalUnit) :
    (seg.changeSegment n).OnAxis ∧
      seg.segmentBaseFlv.toNat ≤ (seg.changeSegment n).segmentBaseFlv.toNat ∧
      seg.lastFlvTs.toNat ≤ (seg.changeSegment n).lastFlvTs.toNat := by
  by_cases hchange : n.streamEpoch = seg.currentEpoch
  · rw [changeSegment_of_eq hchange]
    exact ⟨h, Nat.le_refl _, Nat.le_refl _⟩
  · have hbase := h.base_le
    have hlt := seg.lastFlvTs.toNat_lt
    have hcached := changeSegment_cached h.cached n
    rw [changeSegment_of_ne hchange] at hcached ⊢
    refine ⟨⟨hcached, Nat.le_refl _⟩, ?_, ?_⟩
    · dsimp only
      rw [toNat_saturatingAdd]
      omega
    · dsimp only
      rw [toNat_saturatingAdd]
      omega

theorem OnAxis.next (h : seg.OnAxis) (n : NalUnit) :
    (seg.next n).OnAxis ∧
      (seg.changeSegment n).segmentBaseFlv = (seg.next n).segmentBaseFlv ∧
      (seg.changeSegment n).lastFlvTs.toNat ≤ (seg.next n).lastFlvTs.toNat := by
  have hchanged := (h.changeSegment n).1
  have hlast : (seg.changeSegment n).lastFlvTs.toNat ≤ (seg.next n).lastFlvTs.toNat := by
    rw [next_eq h.cached]
    dsimp only
    split_ifs
    · exact Nat.le_refl _
    · rw [toNat_highWater]
      exact Nat.le_max_left _ _
  have hbase : (seg.changeSegment n).segmentBaseFlv = (seg.next n).segmentBaseFlv := by
    rw [next_eq h.cached]
  refine ⟨⟨next_cached h.cached n, ?_⟩, hbase, hlast⟩
  rw [← hbase]
  exact Nat.le_trans hchanged.base_le hlast

theorem headerTags_timestamp {t : Tag} (h : t ∈ seg.headerTags n) :
    t.timestamp = seg.segmentBaseFlv := by
  unfold headerTags at h
  split_ifs at h
  · obtain ⟨cfg, _, rfl⟩ := Option.map_eq_some_iff.mp (Option.mem_toList.mp h)
    rfl
  · exact absurd h List.not_mem_nil

/-- The tags of one unit lie between the beginning of its segment and the new high-water mark. -/
theorem OnAxis.tags (h : seg.OnAxis) (n : NalUnit) :
    ∀ t ∈ seg.tags n, (seg.changeSegment n).segmentBaseFlv.toNat ≤ t.timestamp.toNat ∧
      t.timestamp.toNat ≤ (seg.next n).lastFlvTs.toNat := by
  intro t ht
  obtain ⟨hnext, hbase, hlast⟩ := h.next n
  by_cases hset : n.isParameterSet = true
  · rw [tags_of_parameterSet seg hset] at ht
    exact absurd ht List.not_mem_nil
  · rw [tags_of_cached h.cached (eq_false_of_ne_true hset)] at ht
    rcases List.mem_append.mp ht with hheader | hnalu
    · rw [headerTags_timestamp hheader]
      refine ⟨Nat.le_refl _, ?_⟩
      rw [hbase]
      exact hnext.base_le
    · rw [List.mem_singleton.mp hnalu]
      refine ⟨base_le_stamp _ n, ?_⟩
      rw [next_eq h.cached]
      dsimp only
      rw [if_neg hset, toNat_highWater]
      exact Nat.le_max_right _ _

theorem OnAxis.after (h : seg.OnAxis) (nals : List NalUnit) :
    (seg.after nals).OnAxis ∧ seg.lastFlvTs.toNat ≤ (seg.after nals).lastFlvTs.toNat := by
  induction nals generalizing seg with
  | nil => exact ⟨h, Nat.le_refl _⟩
  | cons n nals ih =>
    obtain ⟨hnext, _, hlast⟩ := h.next n
    obtain ⟨hafter, hrest⟩ := ih hnext
    exact ⟨hafter, Nat.le_trans (Nat.le_trans (h.changeSegment n).2.2 hlast) hrest⟩

/-- The tags of a run lie between the beginning of the segment and the last high-water mark. -/
theorem OnAxis.tagsAll (h : seg.OnAxis) (nals : List NalUnit) :
    ∀ t ∈ seg.tagsAll nals, seg.segmentBaseFlv.toNat ≤ t.timestamp.toNat ∧
      t.timestamp.toNat ≤ (seg.after nals).lastFlvTs.toNat := by
  induction nals generalizing seg with
  | nil => exact fun t ht ↦ absurd ht List.not_mem_nil
  | cons n nals ih =>
    obtain ⟨hnext, hbase, _⟩ := h.next n
    have hbases := (h.changeSegment n).2.1
    intro t ht
    rcases List.mem_append.mp ht with hfirst | hrest
    · obtain ⟨hlow, hhigh⟩ := h.tags n t hfirst
      exact ⟨Nat.le_trans hbases hlow, Nat.le_trans hhigh (hnext.after nals).2⟩
    · obtain ⟨hlow, hhigh⟩ := ih hnext t hrest
      rw [← hbase] at hlow
      exact ⟨Nat.le_trans hbases hlow, hhigh⟩

/-- What is written from an epoch change on comes after the high-water mark, with the gap. -/
theorem OnAxis.tagsAll_of_change (h : seg.OnAxis) (hchange : n.streamEpoch ≠ seg.currentEpoch)
    (nals : List NalUnit) :
    ∀ t ∈ seg.tagsAll (n :: nals),
      min (seg.lastFlvTs.toNat + SEGMENT_GAP_MS.toNat) (2 ^ 32 - 1) ≤ t.timestamp.toNat := by
  intro t ht
  have hsame : seg.tagsAll (n :: nals) = (seg.changeSegment n).tagsAll (n :: nals) := by
    show seg.tags n ++ (seg.next n).tagsAll nals =
      (seg.changeSegment n).tags n ++ ((seg.changeSegment n).next n).tagsAll nals
    rw [tags_changeSegment, next_changeSegment]
  have hbase : (seg.changeSegment n).segmentBaseFlv =
      saturatingAdd seg.lastFlvTs SEGMENT_GAP_MS := by
    rw [changeSegment_of_ne hchange]
  rw [hsame] at ht
  have hlow := ((h.changeSegment n).1.tagsAll (n :: nals) t ht).1
  rwa [hbase, toNat_saturatingAdd] at hlow

/-! ### Epoch changes -/

/-- The current epoch is that of the last unit. -/
theorem after_epoch {last : NalUnit} (h : seg.Cached) (hlast : seg.currentEpoch = last.streamEpoch)
    (nals : List NalUnit) :
    (seg.after nals).currentEpoch = (nals.getLastD last).streamEpoch := by
  induction nals generalizing seg last with
  | nil => exact hlast
  | cons n nals ih =>
    rw [List.getLastD_cons]
    refine ih (next_cached h n) ?_
    rw [next_eq h]
    exact changeSegment_epoch seg n

end Segment

namespace StreamWriter

theorem seeded_onAxis (sps pps idr : NalUnit) : (seeded sps pps idr).OnAxis :=
  ⟨seeded_cached sps pps idr, Nat.le_refl 0⟩

theorem seeded_after_epoch (sps pps idr : NalUnit) (nals : List NalUnit) :
    ((seeded sps pps idr).after nals).currentEpoch = (nals.getLastD idr).streamEpoch :=
  Segment.after_epoch (seeded_cached sps pps idr) rfl nals

/-- Everything written so far lies below the high-water mark. -/
theorem runTags_le (sps pps idr : NalUnit) (nals : List NalUnit) :
    ∀ t ∈ runTags sps pps idr nals,
      t.timestamp.toNat ≤ ((seeded sps pps idr).after nals).lastFlvTs.toNat := by
  intro t ht
  rcases List.mem_append.mp ht with hseed | hreceived
  · have hzero : t.timestamp = 0 := by
      rcases List.mem_append.mp hseed with hheader | hidr
      · obtain ⟨cfg, _, rfl⟩ := Option.map_eq_some_iff.mp (Option.mem_toList.mp hheader)
        rfl
      · rw [List.mem_singleton.mp hidr]
    rw [hzero]
    exact Nat.zero_le _
  · exact ((seeded_onAxis sps pps idr).tagsAll nals t hreceived).2

/-- What a run writes from an epoch change on, whatever the RTP timestamps and the writer, comes at
least `SEGMENT_GAP_MS` after every tag that it had written before, up to the end of the axis. -/
theorem run_after_epoch_change {ε : Type*} (writer : Writer ε) (sps pps idr : NalUnit)
    (before after : List Recv) (n : NalUnit)
    (hchange : n.streamEpoch ≠ ((before.filterMap Recv.nal?).getLastD idr).streamEpoch) :
    ∃ later,
      (final (new.run writer (some (sps, pps, idr)) (before ++ .nal n :: after))).written =
        (final (new.run writer (some (sps, pps, idr)) before)).written ++ later ∧
      ∀ p ∈ (final (new.run writer (some (sps, pps, idr)) before)).written.drop 1, ∀ q ∈ later,
        min (tagTimestamp p + SEGMENT_GAP_MS.toNat) (2 ^ 32 - 1) ≤ tagTimestamp q := by
  have hwrites := run_writes writer sps pps idr before
  rw [run_append]
  match hbefore : new.run writer (some (sps, pps, idr)) before with
  | .error (e, s) =>
    exact ⟨[], (List.append_nil _).symm, fun p _ q hq ↦ absurd hq List.not_mem_nil⟩
  | .ok s =>
    rw [hbefore] at hwrites
    obtain ⟨hseg, hwritten⟩ := hwrites
    have haxis := ((seeded_onAxis sps pps idr).after (before.filterMap Recv.nal?)).1
    have hrest := loop_writes writer (s := s) (.nal n :: after) (by rw [hseg]; exact haxis.cached)
    obtain ⟨later, hpart, hlater⟩ := Writes.final hrest
    refine ⟨later, hlater, fun p hp q hq ↦ ?_⟩
    have hp' : p ∈ (runTags sps pps idr (before.filterMap Recv.nal?)).map Tag.bytes := by
      rw [show (final (.ok s : StreamM ε StreamWriter)).written = _ from hwritten] at hp
      exact hp
    obtain ⟨t, ht, rfl⟩ := List.mem_map.mp hp'
    obtain ⟨u, hu, rfl⟩ := List.mem_map.mp (hpart.subset hq)
    rw [hseg] at hu
    have hhigh := runTags_le sps pps idr _ t ht
    have hlow := haxis.tagsAll_of_change (by rw [seeded_after_epoch]; exact hchange) _ u hu
    rw [tagTimestamp_bytes, tagTimestamp_bytes]
    omega

/-- Two seconds of the first segment, and the first picture of the next. -/
theorem run_after_epoch_change_reinvite :
    ∃ later,
      (final (new.run vec (some (seedSps, seedPps, seedIdr))
        ([.nal (interUnit 270000 0)] ++ .nal (interUnit 5000 1) :: []))).written =
        (final (new.run vec (some (seedSps, seedPps, seedIdr))
          [.nal (interUnit 270000 0)])).written ++ later ∧
      ∀ p ∈ (final (new.run vec (some (seedSps, seedPps, seedIdr))
          [.nal (interUnit 270000 0)])).written.drop 1, ∀ q ∈ later,
        min (tagTimestamp p + SEGMENT_GAP_MS.toNat) (2 ^ 32 - 1) ≤ tagTimestamp q :=
  run_after_epoch_change vec seedSps seedPps seedIdr [.nal (interUnit 270000 0)] []
    (interUnit 5000 1) (by decide)

end StreamWriter

/-! ### Sequence headers -/

/-- The last unit of a type, or the seed's if none has come. -/
def latest (nalType : UInt8) (seed : NalUnit) (nals : List NalUnit) : NalUnit :=
  (nals.filter fun n ↦ n.nalType = nalType).getLastD seed

theorem latest_cons (nalType : UInt8) (seed n : NalUnit) (nals : List NalUnit) :
    latest nalType seed (n :: nals) =
      latest nalType (if n.nalType = nalType then n else seed) nals := by
  unfold latest
  by_cases htype : n.nalType = nalType
  · rw [List.filter_cons_of_pos (by simpa using htype), List.getLastD_cons, if_pos htype]
  · rw [List.filter_cons_of_neg (by simpa using htype), if_neg htype]

/-- Where a list ends with units among which the type occurs, the last one is found there. -/
theorem latest_mem {nalType : UInt8} (seed : NalUnit) (earlier : List NalUnit)
    {segment : List NalUnit} (h : ∃ n ∈ segment, n.nalType = nalType) :
    latest nalType seed (earlier ++ segment) ∈ segment ∧
      (latest nalType seed (earlier ++ segment)).nalType = nalType := by
  have hne : (segment.filter fun n ↦ n.nalType = nalType) ≠ [] := by
    obtain ⟨n, hn, htype⟩ := h
    exact List.ne_nil_of_mem (List.mem_filter.mpr ⟨hn, by simpa using htype⟩)
  have hlast : latest nalType seed (earlier ++ segment) ∈
      segment.filter fun n ↦ n.nalType = nalType := by
    unfold latest
    rw [List.filter_append, List.getLastD_eq_getLast?, List.getLast?_append_of_ne_nil _ hne,
      List.getLast?_eq_some_getLast hne]
    exact List.getLast_mem hne
  obtain ⟨hmem, htype⟩ := List.mem_filter.mp hlast
  exact ⟨hmem, by simpa using htype⟩

/-- Among the seed IDR, the units received and the unit `n`, an epoch change has come since the last
IDR before `n`, possibly with `n` itself: a unit `x` is followed by one of another epoch, and no IDR
comes between `x` and `n`. -/
def ChangedSinceIdr (idr : NalUnit) (nals : List NalUnit) (n : NalUnit) : Prop :=
  ∃ earlier x between, idr :: nals = earlier ++ x :: between ∧
    (between.headD n).streamEpoch ≠ x.streamEpoch ∧ ∀ u ∈ between, u.nalType ≠ NAL_TYPE_IDR

theorem changedSinceIdr_nil (idr n : NalUnit) :
    ChangedSinceIdr idr [] n ↔ n.streamEpoch ≠ idr.streamEpoch := by
  constructor
  · rintro ⟨earlier, x, between, hsplit, hepoch, _⟩
    obtain ⟨rfl, hrest⟩ | ⟨rest, rfl, hrest⟩ := List.cons_eq_append_iff.mp hsplit
    · obtain ⟨rfl, rfl⟩ := List.cons.inj hrest
      exact hepoch
    · exact absurd hrest.symm (by simp)
  · intro hepoch
    exact ⟨[], idr, [], rfl, hepoch, fun u hu ↦ absurd hu List.not_mem_nil⟩

theorem changedSinceIdr_concat (idr : NalUnit) (nals : List NalUnit) (m n : NalUnit) :
    ChangedSinceIdr idr (nals ++ [m]) n ↔
      n.streamEpoch ≠ m.streamEpoch ∨
        m.nalType ≠ NAL_TYPE_IDR ∧ ChangedSinceIdr idr nals m := by
  constructor
  · rintro ⟨earlier, x, between, hsplit, hepoch, hidr⟩
    -- The list ends with `m`: it is `x` itself, or the last of the units between.
    rcases List.eq_nil_or_concat between with rfl | ⟨front, last, rfl⟩
    · have hx : m = x := by
        have hlast :=
          List.append_inj_right' (show (idr :: nals) ++ [m] = earlier ++ [x] from hsplit) rfl
        exact (List.cons.inj hlast).1
      exact Or.inl (hx ▸ hepoch)
    · have hlists : (idr :: nals) ++ [m] = (earlier ++ x :: front) ++ [last] := by
        rw [List.append_assoc, List.cons_append]
        simpa using hsplit
      obtain ⟨hfront, hlast⟩ := List.append_inj' hlists rfl
      obtain rfl := (List.cons.inj hlast).1
      refine Or.inr ⟨hidr m (by simp), earlier, x, front, hfront, ?_, ?_⟩
      · cases front with
        | nil => simpa using hepoch
        | cons => simpa using hepoch
      · intro u hu
        exact hidr u (by simp [hu])
  · rintro (hepoch | ⟨hidr, earlier, x, between, hsplit, hepoch, hbetween⟩)
    · exact ⟨idr :: nals, m, [], rfl, hepoch, fun u hu ↦ absurd hu List.not_mem_nil⟩
    · refine ⟨earlier, x, between ++ [m], ?_, ?_, ?_⟩
      · rw [← List.cons_append, hsplit, List.append_assoc, List.cons_append]
      · cases between with
        | nil => exact hepoch
        | cons => exact hepoch
      · intro u hu
        rcases List.mem_append.mp hu with hbefore | hlast
        · exact hbetween u hbefore
        · rw [List.mem_singleton.mp hlast]
          exact hidr

namespace StreamWriter

variable {sps pps idr : NalUnit}

/-- The remembered parameter sets are the last ones received. -/
theorem after_sets {seg : Segment} (h : seg.Cached) (hsps : seg.segSps = some sps.data)
    (hpps : seg.segPps = some pps.data) (nals : List NalUnit) :
    (seg.after nals).segSps = some (latest NAL_TYPE_SPS sps nals).data ∧
      (seg.after nals).segPps = some (latest NAL_TYPE_PPS pps nals).data := by
  induction nals generalizing seg sps pps with
  | nil => exact ⟨hsps, hpps⟩
  | cons n nals ih =>
    rw [latest_cons, latest_cons]
    apply ih (Segment.next_cached h n)
    · rw [Segment.next_eq h]
      dsimp only
      split_ifs
      · rfl
      · exact hsps
    · rw [Segment.next_eq h]
      dsimp only
      split_ifs
      · rfl
      · exact hpps

/-- The flag is set for the unit `n` exactly when the epoch has changed since the last IDR. -/
theorem pending_iff (sps pps idr : NalUnit) (nals : List NalUnit) (n : NalUnit) :
    (((seeded sps pps idr).after nals).changeSegment n).pendingSeqHeader = true ↔
      ChangedSinceIdr idr nals n := by
  induction nals using List.reverseRecOn generalizing n with
  | nil =>
    rw [changedSinceIdr_nil]
    by_cases hchange : n.streamEpoch = (seeded sps pps idr).currentEpoch
    · rw [show (seeded sps pps idr).after [] = seeded sps pps idr from rfl,
        Segment.changeSegment_of_eq hchange]
      exact iff_of_false Bool.false_ne_true (not_ne_iff.mpr hchange)
    · rw [show (seeded sps pps idr).after [] = seeded sps pps idr from rfl,
        Segment.changeSegment_of_ne hchange]
      exact iff_of_true rfl hchange
  | append_singleton nals m ih =>
    have hcached := Segment.after_cached (seeded_cached sps pps idr) nals
    have hepoch := seeded_after_epoch sps pps idr (nals ++ [m])
    rw [List.getLastD_concat] at hepoch
    rw [changedSinceIdr_concat, ← ih m]
    by_cases hchange : n.streamEpoch = m.streamEpoch
    · rw [Segment.changeSegment_of_eq (hchange.trans hepoch.symm), Segment.after_append]
      show (Segment.next _ m).pendingSeqHeader = true ↔ _
      rw [Segment.next_eq hcached]
      simp [hchange, and_comm]
    · rw [Segment.changeSegment_of_ne (by rw [hepoch]; exact hchange)]
      exact iff_of_true rfl (Or.inl hchange)

/-- What a received unit `n` adds to the stream after the units `nals`. -/
structure Contribution (sps pps idr : NalUnit) (nals : List NalUnit) (n : NalUnit)
    (pieces : List (List UInt8)) : Prop where
  parameterSet : n.isParameterSet = true → pieces = []
  /-- No header goes before any other unit. -/
  picture : n.isParameterSet = false → ¬(n.nalType = NAL_TYPE_IDR ∧ ChangedSinceIdr idr nals n) →
    ∃ ts, pieces = (buildAvcNaluTag [n] ts).toList
  /-- The first IDR after a change has the header of the last parameter sets right before it, unless
  these cannot be packed. -/
  firstIdr : n.nalType = NAL_TYPE_IDR → ChangedSinceIdr idr nals n →
    ∃ ts base header, pieces = header ++ (buildAvcNaluTag [n] ts).toList ∧
      header = (buildAvcSequenceHeaderTag (latest NAL_TYPE_SPS sps nals).data
        (latest NAL_TYPE_PPS pps nals).data base).toList ∧
      (header = [] ↔ packAvcDecoderConfig (latest NAL_TYPE_SPS sps nals).data
        (latest NAL_TYPE_PPS pps nals).data = none)
  /-- If the epoch of `n` has brought both parameter sets by now, these are the ones in use. -/
  ownSets : ∀ earlier segment, nals = earlier ++ segment →
    (∀ m ∈ segment, m.streamEpoch = n.streamEpoch) →
    (∃ m ∈ segment, m.nalType = NAL_TYPE_SPS) → (∃ m ∈ segment, m.nalType = NAL_TYPE_PPS) →
      latest NAL_TYPE_SPS sps nals ∈ segment ∧ latest NAL_TYPE_PPS pps nals ∈ segment

theorem contribution_tags (sps pps idr : NalUnit) (nals : List NalUnit) (n : NalUnit) :
    Contribution sps pps idr nals n
      ((((seeded sps pps idr).after nals).tags n).map Tag.bytes) := by
  have hcached := Segment.after_cached (seeded_cached sps pps idr) nals
  have hpending := pending_iff sps pps idr nals n
  obtain ⟨hsps, hpps⟩ := after_sets (seeded_cached sps pps idr) rfl rfl nals
  obtain ⟨hsps', hpps'⟩ := Segment.changeSegment_sets ((seeded sps pps idr).after nals) n
  have hnalu : ∀ ts, [Tag.bytes ⟨ts, naluBody [n]⟩] = (buildAvcNaluTag [n] ts).toList := fun _ ↦ rfl
  constructor
  · intro hset
    rw [Segment.tags_of_parameterSet _ hset]
    rfl
  · intro hpicture hnot
    rw [Segment.tags_of_cached hcached hpicture]
    have hnone : (((seeded sps pps idr).after nals).changeSegment n).headerTags n = [] := by
      unfold Segment.headerTags
      apply if_neg
      rintro ⟨hdue, hidr⟩
      exact hnot ⟨hidr, hpending.mp hdue⟩
    rw [hnone, List.nil_append]
    exact ⟨_, hnalu _⟩
  · intro hidr hchanged
    have hpicture : n.isParameterSet = false := by
      rw [NalUnit.isParameterSet, hidr]
      rfl
    rw [Segment.tags_of_cached hcached hpicture, List.map_append,
      Segment.headerTags_map_bytes (Segment.changeSegment_cached hcached n),
      if_pos ⟨hpending.mpr hchanged, hidr⟩]
    refine ⟨_, (((seeded sps pps idr).after nals).changeSegment n).segmentBaseFlv, _,
      congrArg _ (hnalu _), ?_, ?_⟩
    · unfold Segment.seqHeaderTag
      rw [hsps', hpps', hsps, hpps]
    · unfold Segment.seqHeaderTag
      rw [hsps', hpps', hsps, hpps]
      dsimp only
      unfold buildAvcSequenceHeaderTag
      cases packAvcDecoderConfig (latest NAL_TYPE_SPS sps nals).data
        (latest NAL_TYPE_PPS pps nals).data with
      | none | some => simp
  · rintro earlier segment rfl _ hspsIn hppsIn
    exact ⟨(latest_mem sps earlier hspsIn).1, (latest_mem pps earlier hppsIn).1⟩

/-- The sequence headers of a run. The run begins with the FLV header, the header of the seed and
the seed IDR. After that each received unit adds its `Contribution` to what the run has written
before, in this place of every longer run, and an idle period adds nothing. -/
theorem run_contributions {ε : Type*} {writer : Writer ε} (hwriter : Accepts writer)
    (sps pps idr : NalUnit) (before after : List Recv) (recv : Recv) :
    ∃ s t pieces later,
      new.run writer (some (sps, pps, idr)) before = .ok s ∧
      (before = [] → s.written = flvHeader ::
        ((buildAvcSequenceHeaderTag sps.data pps.data 0).toList ++
          (buildAvcNaluTag [idr] 0).toList)) ∧
      new.run writer (some (sps, pps, idr)) (before ++ recv :: after) = .ok t ∧
      t.written = s.written ++ pieces ++ later ∧
      (after = [] → later = []) ∧
      (recv = .timeout → pieces = []) ∧
      ∀ n, recv = .nal n → Contribution sps pps idr (before.filterMap Recv.nal?) n pieces := by
  obtain ⟨s, hs, hswritten⟩ := hwriter.run sps pps idr before
  obtain ⟨t, ht, htwritten⟩ := hwriter.run sps pps idr (before ++ recv :: after)
  have hseeded : ∀ nals, runTags sps pps idr nals =
      runTags sps pps idr [] ++ (seeded sps pps idr).tagsAll nals := by
    intro nals
    unfold runTags
    rw [show (seeded sps pps idr).tagsAll [] = [] from rfl, List.append_nil]
  have hsplit : (before ++ recv :: after).filterMap Recv.nal? =
      before.filterMap Recv.nal? ++ ([recv].filterMap Recv.nal? ++ after.filterMap Recv.nal?) := by
    rw [← List.filterMap_append, ← List.filterMap_append]
    rfl
  have hparts : t.written = s.written ++
      (((seeded sps pps idr).after (before.filterMap Recv.nal?)).tagsAll
        ([recv].filterMap Recv.nal?)).map Tag.bytes ++
      ((((seeded sps pps idr).after (before.filterMap Recv.nal?)).after
        ([recv].filterMap Recv.nal?)).tagsAll (after.filterMap Recv.nal?)).map Tag.bytes := by
    rw [htwritten, hswritten, hsplit, hseeded, hseeded (before.filterMap Recv.nal?),
      Segment.tagsAll_append, Segment.tagsAll_append]
    simp only [List.map_append, List.append_assoc, List.cons_append]
  refine ⟨s, t, _, _, hs, ?_, ht, hparts, ?_, ?_, ?_⟩
  · rintro rfl
    rw [hswritten]
    simp only [runTags, List.map_append, seqHeader_map_bytes]
    exact congrArg (flvHeader :: ·) (List.append_nil _)
  · rintro rfl
    rfl
  · rintro rfl
    rfl
  · rintro n rfl
    have hone : ((seeded sps pps idr).after (before.filterMap Recv.nal?)).tagsAll
        ([Recv.nal n].filterMap Recv.nal?) =
        ((seeded sps pps idr).after (before.filterMap Recv.nal?)).tags n := List.append_nil _
    rw [hone]
    exact contribution_tags sps pps idr _ n

/-- A re-invite with new parameter sets. -/
theorem run_contributions_reinvite :
    ∃ s t pieces later,
      new.run vec (some (seedSps, seedPps, seedIdr))
        [.nal ⟨NAL_TYPE_SPS, [0x67, 0x64, 0xc0, 0x29], 5000, 1⟩,
          .nal ⟨NAL_TYPE_PPS, [0x68, 0xee, 0x31], 5000, 1⟩] = .ok s ∧
      new.run vec (some (seedSps, seedPps, seedIdr))
        ([.nal ⟨NAL_TYPE_SPS, [0x67, 0x64, 0xc0, 0x29], 5000, 1⟩,
          .nal ⟨NAL_TYPE_PPS, [0x68, 0xee, 0x31], 5000, 1⟩] ++
          .nal ⟨NAL_TYPE_IDR, [0x65, 0xab], 5000, 1⟩ :: []) = .ok t ∧
      t.written = s.written ++ pieces ++ later ∧
      ∃ ts base, pieces =
        (buildAvcSequenceHeaderTag [0x67, 0x64, 0xc0, 0x29] [0x68, 0xee, 0x31] base).toList ++
          (buildAvcNaluTag [⟨NAL_TYPE_IDR, [0x65, 0xab], 5000, 1⟩] ts).toList := by
  obtain ⟨s, t, pieces, later, hs, _, ht, hparts, _, _, hnal⟩ :=
    run_contributions accepts_vec seedSps seedPps seedIdr
      [.nal ⟨NAL_TYPE_SPS, [0x67, 0x64, 0xc0, 0x29], 5000, 1⟩,
        .nal ⟨NAL_TYPE_PPS, [0x68, 0xee, 0x31], 5000, 1⟩] []
      (.nal ⟨NAL_TYPE_IDR, [0x65, 0xab], 5000, 1⟩)
  obtain ⟨ts, base, header, hpieces, hheader, _⟩ := (hnal _ rfl).firstIdr rfl
    ⟨[], seedIdr, _, rfl, by decide, by decide⟩
  refine ⟨s, t, pieces, later, hs, ht, hparts, ts, base, ?_⟩
  rw [hpieces, hheader]
  rfl

end StreamWriter

end DoorAccess.Video
