import DoorAccess.Video.Bridges

/-!
# Frame boundaries under packet loss

Which loss patterns let the reassembler cut bytes of two frames of the sender as one: exactly those
with a bridge (`cutFrames_oneFrame_iff`). One direction is `feedAll_oneFrame`. For the other the
payloads can be chosen. One byte stands on each side of the bridge. In front of it a marker makes
the buffer forget what it expects only if it has bytes to cut, so that up to the marker from which
the bridge is found each has one byte, brought by the last survivor that begins the buffer anew
(`beginnings`), and behind that marker there are none.
-/

set_option autoImplicit false
set_option relaxedAutoImplicit false

namespace DoorAccess.Video

section Loss

variable {start : UInt16} {β : Type*}

/-! ### A bridge mixes two frames -/

/-- The stream of a loss pattern with payloads chosen by position. -/
def packetsFrom (payload : ℕ → List UInt8) : ℕ → List Slot → List (RtpPacket UInt8)
  | _, [] => []
  | index, slot :: slots =>
    ⟨slot.marker, 96, Serial.number 0 index, 0, 0, payload index⟩ ::
      packetsFrom payload (index + 1) slots

/-- The packet of a survivor of that stream. -/
def packetOf (payload : ℕ → List UInt8) (x : Survivor) : RtpPacket (UInt8 × ℕ) :=
  ⟨x.marker, 96, Serial.number 0 x.index, 0, 0, (payload x.index).map fun b ↦ (b, x.frame)⟩

theorem packetsFrom_sent (payload : ℕ → List UInt8) (index : ℕ) (slots : List Slot) :
    Consecutive (Serial.number 0 index) (packetsFrom payload index slots) ∧
      (packetsFrom payload index slots).map RtpPacket.marker = slots.map Slot.marker := by
  induction slots generalizing index with
  | nil => exact ⟨trivial, rfl⟩
  | cons slot slots ih =>
    obtain ⟨hseq, hmarkers⟩ := ih (index + 1)
    rw [Serial.number_succ] at hseq
    exact ⟨⟨rfl, hseq⟩, congrArg (slot.marker :: ·) hmarkers⟩

theorem surviving_packetsFrom (payload : ℕ → List UInt8) (index frame : ℕ) (slots : List Slot) :
    surviving slots (tagged frame (packetsFrom payload index slots)) =
      (survivorsFrom index frame slots).map (packetOf payload) := by
  induction slots generalizing index frame with
  | nil => rfl
  | cons slot slots ih =>
    simp only [packetsFrom, tagged, surviving, survivorsFrom, ih]
    split_ifs
    · rfl
    · rfl
    · rfl
    · rfl

theorem handedOut_packetsFrom (payload : ℕ → List UInt8) (slots : List Slot) :
    handedOut [] (surviving slots (tagged 0 (packetsFrom payload 0 slots))) =
      (windowOrder slots).map (packetOf payload) := by
  have hpackets : List.Forall₂ (fun x p ↦ packetOf payload x = p) (survivors slots)
      (surviving slots (tagged 0 (packetsFrom payload 0 slots))) := by
    rw [surviving_packetsFrom, ← List.forall₂_map_left_iff (R := Eq), List.forall₂_eq_eq_eq]
    rfl
  have hseq : ∀ {x p}, packetOf payload x = p → p.seq = Serial.number 0 x.index := by
    rintro x _ rfl
    rfl
  have hmarker : ∀ {x p}, packetOf payload x = p → p.marker = x.marker := by
    rintro x _ rfl
    rfl
  have hout := forall₂_windowOrder hseq hmarker hpackets
  rw [← List.forall₂_map_left_iff (R := Eq), List.forall₂_eq_eq_eq] at hout
  exact hout.symm

/-- The last survivor taken in once `y` has come, when every marker has bytes to cut. -/
def takeInCut (last : Option Survivor) (y : Survivor) : Option Survivor :=
  if y.marker then none else takeIn last y

/-- Behind the survivors `before` the buffer begins anew, `x` is taken in behind the survivors
`quiet`, and behind the survivors `late` comes `y`, of another frame, and joins it. -/
structure Bridge (before quiet late rest : List Survivor) (x y : Survivor) : Prop where
  cut : before.foldl takeInCut none = none
  taken : ¬ Late (quiet.foldl takeIn none) x
  unmarked : x.marker = false
  late : ∀ z ∈ late, z.marker = false ∧ Late (some x) z
  joins : ¬ Late (some x) y ∧ ¬ Begins (some x) y
  frames : x.frame ≠ y.frame
  reaches : y.marker = true ∨ Reaches y rest

theorem exists_marker {ss : List Survivor} (h : ¬ ClearBehindMarkers ss) :
    ∃ before z run, ss = before ++ z :: run ∧ z.marker = true ∧ ¬ Clear none run := by
  induction ss with
  | nil => exact absurd trivial h
  | cons y ss ih =>
    by_cases htail : ClearBehindMarkers ss
    · have hhead : ¬ (y.marker = true → Clear none ss) := fun hhead ↦ h ⟨hhead, htail⟩
      push Not at hhead
      exact ⟨[], y, ss, rfl, hhead⟩
    · obtain ⟨before, z, run, hsplit, hrun⟩ := ih htail
      exact ⟨y :: before, z, run, by rw [hsplit, List.cons_append], hrun⟩

theorem exists_run {ss : List Survivor} (h : ¬ NoBridge ss) :
    ∃ before run, ss = before ++ run ∧ before.foldl takeInCut none = none ∧ ¬ Clear none run := by
  by_cases hclear : Clear none ss
  · obtain ⟨before, z, run, hsplit, hmarker, hrun⟩ :=
      exists_marker fun hmarkers ↦ h ⟨hclear, hmarkers⟩
    refine ⟨before ++ [z], run, by rw [hsplit, List.append_assoc, List.singleton_append], ?_, hrun⟩
    rw [List.foldl_append, List.foldl_cons, List.foldl_nil, takeInCut, if_pos hmarker]
  · exact ⟨[], ss, rfl, rfl, hclear⟩

theorem exists_joins {last : Option Survivor} {run : List Survivor} (h : ¬ Clear last run) :
    ∃ quiet x rest, run = quiet ++ x :: rest ∧ ¬ Late (quiet.foldl takeIn last) x ∧
      x.marker = false ∧ Joins x rest := by
  induction run generalizing last with
  | nil => exact absurd trivial h
  | cons y run ih =>
    by_cases htail : Clear (takeIn last y) run
    · have hhead : ¬ (¬ Late last y → y.marker = false → ¬ Joins y run) :=
        fun hhead ↦ h ⟨hhead, htail⟩
      push Not at hhead
      exact ⟨[], y, run, rfl, hhead⟩
    · obtain ⟨quiet, x, rest, hsplit, hjoins⟩ := ih htail
      exact ⟨y :: quiet, x, rest, by rw [hsplit, List.cons_append], hjoins⟩

theorem Joins.exists_survivor {x : Survivor} {ss : List Survivor} (h : Joins x ss) :
    ∃ late y rest, ss = late ++ y :: rest ∧ (∀ z ∈ late, z.marker = false ∧ Late (some x) z) ∧
      (¬ Late (some x) y ∧ ¬ Begins (some x) y) ∧ x.frame ≠ y.frame ∧
      (y.marker = true ∨ Reaches y rest) := by
  induction ss with
  | nil => exact h.elim
  | cons y ss ih =>
    rw [Joins] at h
    split_ifs at h with hlate
    · obtain ⟨hmarker, hjoins⟩ := h
      obtain ⟨late, y', rest, hsplit, hlate', hjoined⟩ := ih hjoins
      refine ⟨y :: late, y', rest, by rw [hsplit, List.cons_append], ?_, hjoined⟩
      intro z hz
      rcases List.mem_cons.mp hz with rfl | hz
      · exact ⟨hmarker, hlate⟩
      · exact hlate' z hz
    · obtain ⟨hnear, hframes, hreaches⟩ := h
      exact ⟨[], y, ss, rfl, by simp, ⟨hlate, hnear⟩, hframes, hreaches⟩

theorem exists_bridge {ss : List Survivor} (h : ¬ NoBridge ss) :
    ∃ before quiet late rest x y, ss = before ++ (quiet ++ x :: (late ++ y :: rest)) ∧
      Bridge before quiet late rest x y := by
  obtain ⟨before, run, rfl, hcut, hrun⟩ := exists_run h
  obtain ⟨quiet, x, ss, rfl, htaken, hunmarked, hjoins⟩ := exists_joins hrun
  obtain ⟨late, y, rest, rfl, hlate, hjoined, hframes, hreaches⟩ := hjoins.exists_survivor
  exact ⟨before, quiet, late, rest, x, y, rfl, hcut, htaken, hunmarked, hlate, hjoined, hframes,
    hreaches⟩

/-! #### Payloads for a bridge -/

/-- The positions of the survivors that begin the buffer anew, when every marker has bytes to
cut. -/
def beginnings : Option Survivor → List Survivor → List ℕ
  | _, [] => []
  | last, y :: rest =>
    if Begins last y then y.index :: beginnings (takeInCut last y) rest
    else beginnings (takeInCut last y) rest

theorem beginnings_subset (last : Option Survivor) (ss : List Survivor) :
    beginnings last ss ⊆ ss.map Survivor.index := by
  induction ss generalizing last with
  | nil => exact List.Subset.refl _
  | cons y ss ih =>
    rw [beginnings, List.map_cons]
    split_ifs
    · exact List.cons_subset_cons _ (ih _)
    · exact List.Subset.trans (ih _) (List.subset_cons_self _ _)

/-- One byte on each side of the bridge, and one wherever the buffer begins anew before it. -/
def bridgePayload (before : List Survivor) (x y : Survivor) (index : ℕ) : List UInt8 :=
  if index = x.index ∨ index = y.index ∨ index ∈ beginnings none before then [0] else []

/-- Into a buffer of one byte, or none if nothing is expected, a survivor brings a byte exactly if
it begins the buffer anew. Then it leaves one byte. -/
theorem Expects.length_eq_one {payload : ℕ → List UInt8} {r : FrameReassembler (UInt8 × ℕ)}
    {last : Option Survivor} {y : Survivor} (h : Expects 0 r last)
    (hone : ∀ x, last = some x → r.frameBuf.length = 1)
    (hpayload : payload y.index = if Begins last y then [0] else []) :
    Expects 0 (Video.appendPacket r (packetOf payload y)) (takeIn last y) ∧
      (Video.appendPacket r (packetOf payload y)).frameBuf.length = 1 := by
  rcases h.appendPacket (p := packetOf payload y) rfl with ⟨hlate, hsame⟩ | ⟨htaken, hexpects, hbuf⟩
  · rw [takeIn, if_pos hlate, hsame]
    refine ⟨h, ?_⟩
    cases last with
    | none => exact hlate.elim
    | some x => exact hone x rfl
  · rw [takeIn, if_neg htaken]
    refine ⟨hexpects, ?_⟩
    have hlength : (held r last y).length + (packetOf payload y).payload.length = 1 := by
      rw [held, packetOf, hpayload, List.length_map]
      by_cases hbegins : Begins last y
      · simp [hbegins]
      · cases last with
        | none => exact absurd trivial hbegins
        | some x => simp [hbegins, hone x rfl]
    rw [hlength] at hbuf
    rcases hbuf with ⟨-, hlarge⟩ | hbuf
    · exact absurd hlarge (by decide)
    · rw [hbuf, List.length_append, hlength]

/-- Survivors with these payloads leave one byte for every marker to cut. -/
theorem Expects.feedAll_beginnings {payload : ℕ → List UInt8} {ss : List Survivor}
    {r : FrameReassembler (UInt8 × ℕ)} {last : Option Survivor} (h : Expects 0 r last)
    (hone : ∀ x, last = some x → r.frameBuf.length = 1) (hnodup : (ss.map Survivor.index).Nodup)
    (hpayload : ∀ z ∈ ss, payload z.index = if z.index ∈ beginnings last ss then [0] else []) :
    Expects 0 (feedAll (fun buf timestamp ↦ [(buf, timestamp)]) r (ss.map (packetOf payload))).1
      (ss.foldl takeInCut last) := by
  induction ss generalizing r last with
  | nil => exact h
  | cons y ss ih =>
    rw [List.map_cons, List.nodup_cons] at hnodup
    have hfresh : y.index ∉ beginnings (takeInCut last y) ss :=
      fun hmem ↦ hnodup.1 (beginnings_subset _ _ hmem)
    have hy := hpayload y List.mem_cons_self
    have hhead : y.index ∈ beginnings last (y :: ss) ↔ Begins last y := by
      rw [beginnings]
      split_ifs with hbegins
      · simp [hbegins]
      · simp [hbegins, hfresh]
    simp only [hhead] at hy
    obtain ⟨hexpects, hlength⟩ := h.length_eq_one hone hy
    have hrest : ∀ z ∈ ss, payload z.index =
        if z.index ∈ beginnings (takeInCut last y) ss then [0] else [] := by
      intro z hz
      have hne : z.index ≠ y.index :=
        fun heq ↦ hnodup.1 (heq ▸ List.mem_map_of_mem hz)
      have hmem : z.index ∈ beginnings last (y :: ss) ↔
          z.index ∈ beginnings (takeInCut last y) ss := by
        rw [beginnings]
        split_ifs
        · rw [List.mem_cons, or_iff_right hne]
        · exact Iff.rfl
      rw [hpayload z (List.mem_cons_of_mem y hz)]
      simp only [hmem]
    rw [List.map_cons, feedAll, List.foldl_cons]
    by_cases hmarker : y.marker = true
    · have hmarker' : (packetOf payload y).marker = true := hmarker
      have hsome : (Video.appendPacket r (packetOf payload y)).frameBuf ≠ [] :=
        List.ne_nil_of_length_eq_add_one hlength
      have hcut := hexpects.cutFrame (fun buf timestamp ↦ [(buf, timestamp)])
      rw [if_neg hsome] at hcut
      have hnext : takeInCut last y = none := if_pos hmarker
      rw [hnext] at hrest ⊢
      simp only [if_pos hmarker']
      refine ih hcut ?_ hnodup.2 hrest
      intro x hx
      cases hx
    · have hmarker' : ¬ (packetOf payload y).marker = true := hmarker
      have hnext : takeInCut last y = takeIn last y := if_neg hmarker
      rw [hnext] at hrest ⊢
      simp only [if_neg hmarker']
      exact ih hexpects (fun _ _ ↦ hlength) hnodup.2 hrest

/-- Survivors without bytes leave the buffer empty, and no marker makes it forget. -/
theorem Expects.feedAll_quiet {payload : ℕ → List UInt8} {ss : List Survivor}
    {r : FrameReassembler (UInt8 × ℕ)} {last : Option Survivor} (h : Expects 0 r last)
    (hempty : r.frameBuf = []) (hquiet : ∀ z ∈ ss, payload z.index = []) :
    Expects 0 (feedAll (fun buf timestamp ↦ [(buf, timestamp)]) r (ss.map (packetOf payload))).1
      (ss.foldl takeIn last) ∧
    (feedAll (fun buf timestamp ↦ [(buf, timestamp)]) r
      (ss.map (packetOf payload))).1.frameBuf = [] := by
  induction ss generalizing r last with
  | nil => exact ⟨h, hempty⟩
  | cons y ss ih =>
    have hbytes : (packetOf payload y).payload = [] := by
      simp [packetOf, hquiet y List.mem_cons_self]
    have hquiet' : ∀ z ∈ ss, payload z.index = [] :=
      fun z hz ↦ hquiet z (List.mem_cons_of_mem y hz)
    have hnext : Expects 0 (Video.appendPacket r (packetOf payload y)) (takeIn last y) ∧
        (Video.appendPacket r (packetOf payload y)).frameBuf = [] := by
      rcases h.appendPacket (p := packetOf payload y) rfl with
        ⟨hlate, hsame⟩ | ⟨htaken, hexpects, hbuf⟩
      · rw [takeIn, if_pos hlate, hsame]
        exact ⟨h, hempty⟩
      · have hheld : held r last y = [] := by
          rw [held, hempty, ite_self]
        rw [hbytes, hheld] at hbuf
        rw [takeIn, if_neg htaken]
        exact ⟨hexpects, hbuf.elim And.left id⟩
    have hcut := hnext.1.cutFrame (fun buf timestamp ↦ [(buf, timestamp)])
    rw [if_pos hnext.2] at hcut
    rw [List.map_cons, feedAll, List.foldl_cons]
    split_ifs
    · exact ih hcut (cutFrame_fields _ _).1 hquiet'
    · exact ih hnext.1 hnext.2 hquiet'

/-! #### The bytes on both sides -/

theorem mem_feedAll_of_marker {r : FrameReassembler β} {p : RtpPacket β}
    (hmarker : p.marker = true) (hsome : (appendPacket r p).frameBuf ≠ [])
    (ps : List (RtpPacket β)) :
    ((appendPacket r p).frameBuf, (appendPacket r p).frameTimestamp) ∈
      (feedAll (fun buf timestamp ↦ [(buf, timestamp)]) r (p :: ps)).2.1 := by
  obtain ⟨-, hnals⟩ :=
    cutFrame_fields (fun buf timestamp ↦ [(buf, timestamp)]) (appendPacket r p)
  simp only [feedAll, if_pos hmarker, hnals, if_neg hsome]
  exact List.mem_append_left _ List.mem_cons_self

/-- Behind a gap of at most eight, and with room, the bytes of a survivor follow those in the
buffer. -/
theorem Expects.append {r : FrameReassembler β} {x y : Survivor} {p : RtpPacket β}
    (h : Expects start r (some x)) (hseq : p.seq = Serial.number start y.index)
    (hjoins : ¬ Late (some x) y ∧ ¬ Begins (some x) y)
    (hfits : (r.frameBuf ++ p.payload).length ≤ FRAME_MAX_BYTES) :
    Expects start (Video.appendPacket r p) (some y) ∧
      (Video.appendPacket r p).frameBuf = r.frameBuf ++ p.payload := by
  rw [List.length_append] at hfits
  rcases h.appendPacket hseq with ⟨hlate, -⟩ | ⟨-, hexpects, hbuf⟩
  · exact absurd hlate hjoins.1
  · rw [held, if_neg hjoins.2] at hbuf
    exact ⟨hexpects, hbuf.resolve_left fun hfull ↦ Nat.not_lt.mpr hfits hfull.2⟩

/-- What is in the buffer is cut at the marker that is met, when no bytes come in between. -/
theorem Expects.feedAll_reaches {payload : ℕ → List UInt8} {ss : List Survivor}
    {r : FrameReassembler (UInt8 × ℕ)} {x : Survivor} (h : Expects 0 r (some x))
    (hsome : r.frameBuf ≠ []) (hfits : r.frameBuf.length ≤ FRAME_MAX_BYTES)
    (hreaches : Reaches x ss) (hquiet : ∀ z ∈ ss, payload z.index = []) :
    ∃ timestamp, (r.frameBuf, timestamp) ∈
      (feedAll (fun buf timestamp ↦ [(buf, timestamp)]) r (ss.map (packetOf payload))).2.1 := by
  induction ss generalizing r x with
  | nil => exact hreaches.elim
  | cons y ss ih =>
    have hquiet' : ∀ z ∈ ss, payload z.index = [] :=
      fun z hz ↦ hquiet z (List.mem_cons_of_mem y hz)
    have hbytes : (packetOf payload y).payload = [] := by
      simp [packetOf, hquiet y List.mem_cons_self]
    -- The survivor leaves the bytes alone, and a marker is still to be met if it has none itself.
    have hnext : ∃ x', Expects 0 (Video.appendPacket r (packetOf payload y)) (some x') ∧
        (Video.appendPacket r (packetOf payload y)).frameBuf = r.frameBuf ∧
        (y.marker = true ∨ Reaches x' ss) := by
      rw [Reaches] at hreaches
      split_ifs at hreaches with hlate
      · have hsame : Video.appendPacket r (packetOf payload y) = r :=
          appendPacket_late h.1 ((gap_eq rfl h.2).trans_lt hlate)
        rw [hsame]
        exact ⟨x, h, rfl, hreaches⟩
      · obtain ⟨hexpects, hbuf⟩ := h.append (p := packetOf payload y) rfl ⟨hlate, hreaches.1⟩
          (by rw [hbytes, List.append_nil]; exact hfits)
        rw [hbytes, List.append_nil] at hbuf
        exact ⟨y, hexpects, hbuf, hreaches.2⟩
    obtain ⟨x', hexpects, hbuf, hmarked⟩ := hnext
    rw [List.map_cons]
    by_cases hmarker : y.marker = true
    · have hcut := mem_feedAll_of_marker (p := packetOf payload y) hmarker
        (by rw [hbuf]; exact hsome) (ss.map (packetOf payload))
      rw [hbuf] at hcut
      exact ⟨_, hcut⟩
    · have hmarker' : ¬ (packetOf payload y).marker = true := hmarker
      rw [feedAll]
      simp only [if_neg hmarker']
      rw [← hbuf] at hsome hfits ⊢
      exact ih hexpects hsome hfits (hmarked.resolve_left hmarker) hquiet'

/-- Late survivors without a marker change nothing. -/
theorem Expects.feedAll_late {payload : ℕ → List UInt8} {ss : List Survivor}
    {r : FrameReassembler (UInt8 × ℕ)} {x : Survivor} (h : Expects 0 r (some x))
    (hlate : ∀ z ∈ ss, z.marker = false ∧ Late (some x) z) :
    (feedAll (fun buf timestamp ↦ [(buf, timestamp)]) r (ss.map (packetOf payload))).1 = r := by
  induction ss with
  | nil => rfl
  | cons y ss ih =>
    obtain ⟨hmarker, hy⟩ := hlate y List.mem_cons_self
    have hmarker' : ¬ (packetOf payload y).marker = true := by simp [packetOf, hmarker]
    have hsame : Video.appendPacket r (packetOf payload y) = r :=
      appendPacket_late h.1 ((gap_eq rfl h.2).trans_lt hy)
    rw [List.map_cons, feedAll]
    simp only [if_neg hmarker', hsame]
    exact ih fun z hz ↦ hlate z (List.mem_cons_of_mem y hz)

/-- Only these survivors have a byte. -/
theorem bridgePayload_spec {before quiet late rest : List Survivor} {x y : Survivor}
    (hnodup : ((before ++ (quiet ++ x :: (late ++ y :: rest))).map Survivor.index).Nodup) :
    (∀ z ∈ before, bridgePayload before x y z.index =
      if z.index ∈ beginnings none before then [0] else []) ∧
    (∀ z ∈ quiet, bridgePayload before x y z.index = []) ∧
    ∀ z ∈ rest, bridgePayload before x y z.index = [] := by
  have hsubset := beginnings_subset none before
  have hbefore : ∀ index ∈ beginnings none before, ∃ z ∈ before, z.index = index :=
    fun index hmem ↦ List.mem_map.mp (hsubset hmem)
  have hpairwise := List.pairwise_map.mp hnodup
  obtain ⟨-, hafter, hearlier⟩ := List.pairwise_append.mp hpairwise
  obtain ⟨-, hlater, hquiet⟩ := List.pairwise_append.mp hafter
  obtain ⟨hx, hlater⟩ := List.pairwise_cons.mp hlater
  obtain ⟨-, hlater, -⟩ := List.pairwise_append.mp hlater
  obtain ⟨hy, -⟩ := List.pairwise_cons.mp hlater
  unfold bridgePayload
  refine ⟨?_, ?_, ?_⟩
  · intro z hz
    have hzx := hearlier z hz x (by simp)
    have hzy := hearlier z hz y (by simp)
    simp [hzx, hzy]
  · intro z hz
    have hzx := hquiet z hz x (by simp)
    have hzy := hquiet z hz y (by simp)
    refine if_neg ?_
    rintro (heq | heq | hmem)
    · exact hzx heq
    · exact hzy heq
    · obtain ⟨z', hz', heq⟩ := hbefore _ hmem
      exact hearlier z' hz' z (by simp [hz]) heq
  · intro z hz
    have hxz := hx z (by simp [hz])
    have hyz := hy z hz
    refine if_neg ?_
    rintro (heq | heq | hmem)
    · exact hxz heq.symm
    · exact hyz heq.symm
    · obtain ⟨z', hz', heq⟩ := hbefore _ hmem
      exact hearlier z' hz' z (by simp [hz]) heq

/-- With these payloads the bytes on both sides of the bridge are cut as one frame. -/
theorem Bridge.mem_feedAll {before quiet late rest : List Survivor} {x y : Survivor}
    (h : Bridge before quiet late rest x y)
    (hnodup : ((before ++ (quiet ++ x :: (late ++ y :: rest))).map Survivor.index).Nodup) :
    ∃ timestamp, ([(0, x.frame), (0, y.frame)], timestamp) ∈
      (feedAll (fun buf timestamp ↦ [(buf, timestamp)]) .new
        ((before ++ (quiet ++ x :: (late ++ y :: rest))).map
          (packetOf (bridgePayload before x y)))).2.1 := by
  have hbytex : (packetOf (bridgePayload before x y) x).payload = [(0, x.frame)] := by
    simp [packetOf, bridgePayload]
  have hbytey : (packetOf (bridgePayload before x y) y).payload = [(0, y.frame)] := by
    simp [packetOf, bridgePayload]
  obtain ⟨hbefore, hquiet, hrest⟩ := bridgePayload_spec hnodup
  obtain ⟨hnodupBefore, -⟩ := List.nodup_append.mp (List.map_append ▸ hnodup)
  -- Up to the bridge: a byte for every marker, then none.
  have hcut := expects_new.feedAll_beginnings (by simp) hnodupBefore hbefore
  rw [h.cut] at hcut
  obtain ⟨hexpects, hempty⟩ := hcut.feedAll_quiet hcut.2 hquiet
  simp only [List.map_append, List.map_cons, (feedAll_append _ _ _ _).2]
  generalize (feedAll (fun buf timestamp ↦ [(buf, timestamp)]) .new
    (before.map (packetOf (bridgePayload before x y)))).1 = begun at hexpects hempty ⊢
  generalize (feedAll (fun buf timestamp ↦ [(buf, timestamp)]) begun
    (quiet.map (packetOf (bridgePayload before x y)))).1 = r at hexpects hempty ⊢
  -- The first side.
  have hx : Expects 0 (appendPacket r (packetOf (bridgePayload before x y) x)) (some x) ∧
      (appendPacket r (packetOf (bridgePayload before x y) x)).frameBuf = [(0, x.frame)] := by
    rcases hexpects.appendPacket (p := packetOf (bridgePayload before x y) x) rfl with
      ⟨hlate, -⟩ | ⟨-, hexpects', hbuf⟩
    · exact absurd hlate h.taken
    · have hheld : held r (quiet.foldl takeIn none) x = [] := by
        rw [held, hempty, ite_self]
      rw [hheld, hbytex] at hbuf
      exact ⟨hexpects', hbuf.resolve_left fun hfull ↦
        absurd hfull.2 (by simp [FRAME_MAX_BYTES])⟩
  have hmarkerx : ¬ (packetOf (bridgePayload before x y) x).marker = true := by
    simp [packetOf, h.unmarked]
  rw [feedAll]
  simp only [if_neg hmarkerx, (feedAll_append _ _ _ _).2, hx.1.feedAll_late h.late]
  -- The second side, and the marker.
  obtain ⟨hy, hbuf⟩ := hx.1.append (p := packetOf (bridgePayload before x y) y) rfl h.joins (by
    rw [hx.2, hbytey]
    simp [FRAME_MAX_BYTES])
  rw [hx.2, hbytey, List.singleton_append] at hbuf
  generalize appendPacket r (packetOf (bridgePayload before x y) x) = r at hy hbuf ⊢
  have hsome : (appendPacket r (packetOf (bridgePayload before x y) y)).frameBuf ≠ [] := by
    rw [hbuf]
    exact List.cons_ne_nil _ _
  have hcuts : ∃ timestamp, ([(0, x.frame), (0, y.frame)], timestamp) ∈
      (feedAll (fun buf timestamp ↦ [(buf, timestamp)]) r
        (packetOf (bridgePayload before x y) y ::
          rest.map (packetOf (bridgePayload before x y)))).2.1 := by
    by_cases hmarker : y.marker = true
    · have hcut' := mem_feedAll_of_marker (p := packetOf (bridgePayload before x y) y) hmarker hsome
        (rest.map (packetOf (bridgePayload before x y)))
      rw [hbuf] at hcut'
      exact ⟨_, hcut'⟩
    · have hmarkery : ¬ (packetOf (bridgePayload before x y) y).marker = true := hmarker
      rw [feedAll]
      simp only [if_neg hmarkery]
      rw [← hbuf]
      refine hy.feedAll_reaches hsome ?_ (h.reaches.resolve_left hmarker) hrest
      rw [hbuf]
      simp [FRAME_MAX_BYTES]
  obtain ⟨timestamp, hmem⟩ := hcuts
  refine ⟨timestamp, ?_⟩
  exact List.mem_append_right _ (List.mem_append_right _ (List.mem_append_right _ hmem))

/-- **Exactly the loss patterns without a bridge keep the frames apart.** Take any loss pattern, and
the survivors in the order in which the sorting window hands them out. Every frame that is cut from
a stream with these losses holds bytes of one frame of the sender only, whatever the stream carries,
if and only if the following never happens, going through the survivors from the first or from
behind a marker: one without a marker is taken in (the first, and then each whose gap behind the
last one taken in is not negative), the next one taken in is of another frame behind a gap of at
most eight, no marker stands between the two, and over such gaps one is met behind them. -/
theorem cutFrames_oneFrame_iff (slots : List Slot) :
    (∀ (start : UInt16) (sent : List (RtpPacket UInt8)), Consecutive start sent →
        sent.map RtpPacket.marker = slots.map Slot.marker →
        ∀ cut ∈ cutFrames (surviving slots (tagged 0 sent)), OneFrame cut) ↔
      NoBridge (windowOrder slots) := by
  constructor
  · intro hone
    by_contra hbridge
    obtain ⟨before, quiet, late, rest, x, y, hsplit, hbridge⟩ := exists_bridge hbridge
    have hnodup : ((windowOrder slots).map Survivor.index).Nodup := by
      rw [((windowOrder_perm slots).map Survivor.index).nodup_iff]
      exact List.pairwise_map.mpr
        ((survivorsFrom_pairwise 0 0 slots).1.imp fun hlt ↦ Nat.ne_of_lt hlt)
    rw [hsplit] at hnodup
    obtain ⟨timestamp, hcut⟩ := hbridge.mem_feedAll hnodup
    obtain ⟨hseq, hmarkers⟩ := packetsFrom_sent (bridgePayload before x y) 0 slots
    rw [Serial.number_zero] at hseq
    have hcuts := hone 0 (packetsFrom (bridgePayload before x y) 0 slots) hseq hmarkers
    rw [cutFrames, pushAll_handedOut, handedOut_packetsFrom, hsplit] at hcuts
    have hsame := hcuts _ hcut (0, x.frame) List.mem_cons_self (0, y.frame)
      (List.mem_cons_of_mem _ List.mem_cons_self)
    exact hbridge.frames hsame
  · intro hbridge start sent hseq hmarkers
    have hcarries := forall₂_windowOrder Carries.seq Carries.marker
      (carries_survivors hseq hmarkers)
    rw [cutFrames, pushAll_handedOut]
    refine feedAll_oneFrame hcarries expects_new ?_ hbridge.1 hbridge.2
    intro hsome
    exact absurd rfl hsome

/-- A frame loses its marker, and the next one all of its packets but the marker: nine in all. -/
def longLoss : List Slot :=
  [⟨false, true⟩, ⟨true, false⟩] ++ List.replicate 8 ⟨false, false⟩ ++ [⟨true, true⟩]

/-- A frame loses forty thousand packets in a row and nothing else. -/
def burst : List Slot :=
  ⟨false, true⟩ :: (List.replicate 40000 ⟨false, false⟩ ++ [⟨false, true⟩, ⟨true, true⟩])

theorem survivorsFrom_lost (index frame n : ℕ) (slots : List Slot) :
    survivorsFrom index frame (List.replicate n ⟨false, false⟩ ++ slots) =
      survivorsFrom (index + n) frame slots := by
  induction n generalizing index with
  | zero => rfl
  | succ n ih =>
    have hnext : index + (n + 1) = index + 1 + n := by omega
    rw [hnext, ← ih]
    rfl

theorem windowOrder_burst :
    windowOrder burst = [⟨40001, 0, false⟩, ⟨40002, 0, true⟩, ⟨0, 0, false⟩] := by
  have hsurvivors : survivors burst =
      [⟨0, 0, false⟩, ⟨40001, 0, false⟩, ⟨40002, 0, true⟩] := by
    rw [survivors, burst, survivorsFrom]
    simp only [survivorsFrom_lost]
    rfl
  rw [windowOrder, hsurvivors]
  decide +kernel

theorem cutFrames_longLoss :
    windowOrder longLoss = [⟨0, 0, false⟩, ⟨10, 1, true⟩] ∧
      (∀ (start : UInt16) (sent : List (RtpPacket UInt8)), Consecutive start sent →
        sent.map RtpPacket.marker = longLoss.map Slot.marker →
        ∀ cut ∈ cutFrames (surviving longLoss (tagged 0 sent)), OneFrame cut) ∧
      ∀ (start : UInt16) (sent : List (RtpPacket UInt8)), Consecutive start sent →
        sent.map RtpPacket.marker = burst.map Slot.marker →
        ∀ cut ∈ cutFrames (surviving burst (tagged 0 sent)), OneFrame cut := by
  have hlong : windowOrder longLoss = [⟨0, 0, false⟩, ⟨10, 1, true⟩] :=
    windowOrder_of_inOrder (.cons_cons (Or.inr (by decide)) (.singleton _))
  refine ⟨hlong, (cutFrames_oneFrame_iff longLoss).mpr ?_, (cutFrames_oneFrame_iff burst).mpr ?_⟩
  · rw [hlong]
    decide
  · rw [windowOrder_burst]
    decide

/-- Two frames of which the first loses its marker. -/
def lostMarkerSent : List (RtpPacket UInt8) :=
  [⟨false, 96, 1, 9000, 7, [0x41]⟩, ⟨true, 96, 2, 9000, 7, [0x42]⟩,
    ⟨true, 96, 3, 12000, 7, [0x43]⟩]

def lostMarker : List Slot :=
  [⟨false, true⟩, ⟨true, false⟩, ⟨true, true⟩]

theorem cutFrames_lostMarker :
    Consecutive 1 lostMarkerSent ∧
      lostMarkerSent.map RtpPacket.marker = lostMarker.map Slot.marker ∧
      cutFrames (surviving lostMarker (tagged 0 lostMarkerSent)) =
        [([(0x41, 0), (0x43, 1)], 9000)] ∧
      ¬ OneFrame ([(0x41, 0), (0x43, 1)], 9000) ∧
      (pushAll extractNalsAnnexb .new (surviving lostMarker lostMarkerSent)).2 =
        [⟨NAL_TYPE_NON_IDR, [0x41, 0x43], 9000, 0⟩] := by
  have hcuts : cutFrames (surviving lostMarker (tagged 0 lostMarkerSent)) =
      [([(0x41, 0), (0x43, 1)], 9000)] := rfl
  have hmixed : ¬ OneFrame ([(0x41, 0), (0x43, 1)], 9000) := by
    intro hone
    have hsame := hone (0x41, 0) List.mem_cons_self (0x43, 1)
      (List.mem_cons_of_mem _ List.mem_cons_self)
    exact absurd hsame (by decide)
  refine ⟨⟨rfl, rfl, rfl, trivial⟩, rfl, hcuts, hmixed, ?_⟩
  have herase : surviving lostMarker lostMarkerSent =
      (surviving lostMarker (tagged 0 lostMarkerSent)).map (RtpPacket.map Prod.fst) := rfl
  rw [herase, pushAll_map, hcuts]
  rfl

end Loss

end DoorAccess.Video
