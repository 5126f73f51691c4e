import DoorAccess.Video.Survivors
import DoorAccess.Video.Window

/-!
# Where the bytes of a frame are from

The reassembler under any calls of `push` and `reset_stream`, with any packets: no order of arrival,
no size and no sequence number is assumed. Every packet is told apart by the number of the call that
pushed it. `Traces` ties the partial frame to the packets it was made of; one packet adds itself to
them or takes some away (`Traces.appendPacket`), so that over a whole run the packets of the cut
frames, of the partial frame and of the window are different calls (`Sourced`).
-/

set_option autoImplicit false
set_option relaxedAutoImplicit false

namespace DoorAccess.Video

section Provenance

variable {β ν : Type*}

/-- A call on the reassembler. -/
inductive Input (β : Type*)
  | push (pkt : RtpPacket β)
  | resetStream

/-- One call: the reassembler after it and the units it returns. -/
def FrameReassembler.input (extract : List β → UInt32 → List ν) (r : FrameReassembler β) :
    Input β → FrameReassembler β × List ν
  | .push pkt => ((push extract r pkt).1, (push extract r pkt).2.1)
  | .resetStream => (resetStream r, [])

/-- Successive calls, with the units of each of them. -/
def runInputs (extract : List β → UInt32 → List ν) :
    FrameReassembler β → List (Input β) → FrameReassembler β × List (List ν)
  | r, [] => (r, [])
  | r, i :: inputs =>
    let (r, units) := r.input extract i
    let (r, rest) := runInputs extract r inputs
    (r, units :: rest)

/-- A cut frame by its packets, each with the number of the call that pushed it. -/
structure Cut (β : Type*) where
  packets : List (ℕ × RtpPacket β)
  timestamp : UInt32

/-- The bytes that `cut_frame` hands to `extract`. -/
def Cut.bytes (c : Cut β) : List β :=
  frameBytes (c.packets.map Prod.snd)

def Cut.units (extract : List β → UInt32 → List ν) (c : Cut β) : List ν :=
  extract c.bytes c.timestamp

/-- The second packet has a number from one to nine behind the first, modulo `2^16`. -/
def Near (a b : ℕ × RtpPacket β) : Prop :=
  1 ≤ (b.2.seq - a.2.seq).toNat ∧ (b.2.seq - a.2.seq).toNat ≤ REASSEMBLER_WINDOW_SIZE + 1

/-- The packet was pushed by its call, not later than call `k`, and there was no reset since. -/
structure Live (inputs : List (Input β)) (k : ℕ) (e : ℕ × RtpPacket β) : Prop where
  pushed : inputs[e.1]? = some (.push e.2)
  before : e.1 ≤ k
  unreset : ∀ j, e.1 < j → j ≤ k → inputs[j]? ≠ some .resetStream

/-- The frames that each call has cut are made of packets of the run, none of them used twice. -/
structure Traced (inputs : List (Input β)) (cuts : List (List (Cut β))) : Prop where
  distinct : (cuts.flatten.flatMap fun c ↦ c.packets.map Prod.fst).Nodup
  ordered : ∀ c ∈ cuts.flatten, c.packets.IsChain Near
  sized : ∀ c ∈ cuts.flatten, c.bytes ≠ [] ∧ c.bytes.length ≤ FRAME_MAX_BYTES
  live : ∀ k frames, cuts[k]? = some frames → ∀ c ∈ frames, ∀ e ∈ c.packets, Live inputs k e

/-! ### The partial frame -/

/-- The partial frame is made of the packets `g`, and continues behind the last of them. -/
structure Traces (r : FrameReassembler β) (g : List (ℕ × RtpPacket β)) : Prop where
  frameBuf : r.frameBuf = frameBytes (g.map Prod.snd)
  ordered : g.IsChain Near
  expects : ∀ last ∈ g.getLast?, r.expectSeqSet = true ∧ r.expectSeq = last.2.seq + 1
  sized : r.frameBuf.length ≤ FRAME_MAX_BYTES

theorem traces_nil {r : FrameReassembler β} (h : r.frameBuf = []) : Traces r [] where
  frameBuf := h
  ordered := List.IsChain.nil
  expects := fun last hlast ↦ absurd hlast (by simp)
  sized := by simp [h]

/-- The window and the packet count are not looked at. -/
theorem Traces.withWindow {r : FrameReassembler β} {g : List (ℕ × RtpPacket β)} (h : Traces r g)
    (pending : List (RtpPacket β)) (packets : ℕ) : Traces (r.withWindow pending packets) g :=
  ⟨h.frameBuf, h.ordered, h.expects, h.sized⟩

/-- The payload of a packet behind those of `g`: it is taken in with them, or the cap drops all. -/
theorem traces_appendPayload {r : FrameReassembler β} {g : List (ℕ × RtpPacket β)}
    {e : ℕ × RtpPacket β} (hbuf : r.frameBuf = frameBytes (g.map Prod.snd))
    (hset : r.expectSeqSet = true) (hordered : (g ++ [e]).IsChain Near) :
    ∃ g', Traces (appendPayload r e.2) g' ∧ g'.Sublist (g ++ [e]) := by
  by_cases hfits : r.frameBuf.length + e.2.payload.length ≤ FRAME_MAX_BYTES
  · refine ⟨g ++ [e], ?_, List.Sublist.refl _⟩
    rw [appendPayload_of_le hfits]
    refine ⟨?_, hordered, ?_, ?_⟩
    · simp [hbuf, frameBytes]
    · intro last hlast
      rw [List.getLast?_concat, Option.mem_some_iff] at hlast
      exact ⟨hset, by rw [hlast]⟩
    · rw [List.length_append]
      exact hfits
  · refine ⟨[], traces_nil ?_, List.nil_sublist _⟩
    rw [appendPayload, if_pos (Nat.lt_of_not_le hfits)]
    exact dropFrame_frameBuf _ _

/-- A distance from zero to eight to the number expected is one from one to nine to the last
packet. -/
theorem near_of_tolerated {a b : ℕ × RtpPacket β}
    (hlow : 0 ≤ Serial.diff b.2.seq (a.2.seq + 1))
    (hhigh : Serial.diff b.2.seq (a.2.seq + 1) ≤ REASSEMBLER_WINDOW_SIZE) : Near a b := by
  have hsub : (b.2.seq - a.2.seq).toNat = ((b.2.seq - (a.2.seq + 1)).toNat + 1) % 2 ^ 16 := by
    have ha := a.2.seq.toNat_lt
    have hb := b.2.seq.toNat_lt
    simp only [UInt16.toNat_sub, UInt16.toNat_add, UInt16.toNat_one]
    omega
  unfold Serial.diff at hlow hhigh
  unfold Near REASSEMBLER_WINDOW_SIZE at *
  split_ifs at hlow hhigh with hsmall
  · omega
  · omega

/-- One packet: the partial frame is then made of some of the packets before and this one. -/
theorem Traces.appendPacket {r : FrameReassembler β} {g : List (ℕ × RtpPacket β)} (h : Traces r g)
    (e : ℕ × RtpPacket β) :
    ∃ g', Traces (appendPacket r e.2) g' ∧ g'.Sublist (g ++ [e]) := by
  have halone : ([] ++ [e]).IsChain Near := List.IsChain.singleton e
  by_cases hset : r.expectSeqSet = true
  · simp only [Video.appendPacket, hset, Bool.not_true, Bool.false_eq_true, if_false]
    split_ifs with hold hgap
    · exact ⟨g, h, List.sublist_append_left g [e]⟩
    · have hdropped : (beginFrame (dropFrame .seqGap r) e.2 e.2.seq).frameBuf = [] :=
        dropFrame_frameBuf _ _
      obtain ⟨g', htraces, hsub⟩ := traces_appendPayload (g := []) hdropped rfl halone
      exact ⟨g', htraces, hsub.trans (List.sublist_append_right g [e])⟩
    · refine traces_appendPayload h.frameBuf hset ?_
      refine List.isChain_append.mpr ⟨h.ordered, List.IsChain.singleton e, ?_⟩
      intro last hlast first hfirst
      rw [List.head?_cons, Option.mem_some_iff] at hfirst
      subst hfirst
      rw [(h.expects last hlast).2] at hold hgap
      exact near_of_tolerated (not_lt.mp hold) (not_lt.mp hgap)
  · have hunset := eq_false_of_ne_true hset
    have hnone : g = [] := by
      rcases List.eq_nil_or_concat g with hnil | ⟨init, last, hconcat⟩
      · exact hnil
      · rw [List.concat_eq_append] at hconcat
        have hlast : last ∈ g.getLast? := by rw [hconcat, List.getLast?_concat]; rfl
        exact absurd (h.expects last hlast).1 hset
    rw [appendPacket_fresh hunset]
    subst hnone
    exact traces_appendPayload (r := beginFrame r e.2 e.2.seq) h.frameBuf rfl halone

/-- A marker packet: the partial frame is cut, or it has no byte and stays. -/
theorem Traces.cutFrame {r : FrameReassembler β} {g : List (ℕ × RtpPacket β)} (h : Traces r g)
    (extract : List β → UInt32 → List ν) :
    (Traces (cutFrame extract r).1 g ∧ (cutFrame extract r).2 = []) ∨
      Traces (cutFrame extract r).1 [] ∧
        (cutFrame extract r).2 = Cut.units extract ⟨g, r.frameTimestamp⟩ ∧
        frameBytes (g.map Prod.snd) ≠ [] := by
  unfold Video.cutFrame
  split_ifs with hempty
  · exact Or.inl ⟨h, rfl⟩
  · refine Or.inr ⟨traces_nil rfl, ?_, ?_⟩
    · simp only [Cut.units, Cut.bytes, h.frameBuf]
    · rw [← h.frameBuf]
      exact fun hnil ↦ hempty (List.isEmpty_iff.mpr hnil)

/-- What is known of a frame at its cut. -/
structure WellCut (c : Cut β) : Prop where
  ordered : c.packets.IsChain Near
  sized : c.bytes ≠ [] ∧ c.bytes.length ≤ FRAME_MAX_BYTES

/-- Released packets through the buffer: those of the frames cut and those of the partial frame come
one after the other from those that the partial frame had and the released ones. -/
theorem Traces.feedAll (extract : List β → UInt32 → List ν) {r : FrameReassembler β}
    {g : List (ℕ × RtpPacket β)} (h : Traces r g) (es : List (ℕ × RtpPacket β)) :
    ∃ (cuts : List (Cut β)) (g' : List (ℕ × RtpPacket β)),
      Traces (feedAll extract r (es.map Prod.snd)).1 g' ∧
      (feedAll extract r (es.map Prod.snd)).2.1 = cuts.flatMap (Cut.units extract) ∧
      (cuts.flatMap Cut.packets ++ g').Sublist (g ++ es) ∧ ∀ c ∈ cuts, WellCut c := by
  induction es generalizing r g with
  | nil => exact ⟨[], g, h, rfl, by simp, by simp⟩
  | cons e es ih =>
    obtain ⟨kept, hkept, hsub⟩ := h.appendPacket e
    have hall : (kept ++ es).Sublist (g ++ e :: es) := by
      rw [List.append_cons]
      exact hsub.append_right es
    simp only [List.map_cons, Video.feedAll]
    by_cases hmarker : e.2.marker = true
    · rw [if_pos hmarker]
      rcases hkept.cutFrame extract with ⟨hstays, hunits⟩ | ⟨hcut, hunits, hbytes⟩
      · obtain ⟨cuts, g', htraces, houts, hsub', hwell⟩ := ih hstays
        refine ⟨cuts, g', htraces, ?_, hsub'.trans hall, hwell⟩
        rw [hunits, List.nil_append]
        exact houts
      · obtain ⟨cuts, g', htraces, houts, hsub', hwell⟩ := ih hcut
        refine ⟨⟨kept, (Video.appendPacket r e.2).frameTimestamp⟩ :: cuts, g', htraces, ?_, ?_, ?_⟩
        · rw [hunits, List.flatMap_cons]
          exact congrArg _ houts
        · rw [List.flatMap_cons, List.append_assoc]
          exact ((List.Sublist.refl kept).append hsub').trans hall
        · intro c hc
          rcases List.mem_cons.mp hc with rfl | hrest
          · refine ⟨hkept.ordered, hbytes, ?_⟩
            have hsized := hkept.sized
            rwa [hkept.frameBuf] at hsized
          · exact hwell c hrest
    · rw [if_neg hmarker]
      obtain ⟨cuts, g', htraces, houts, hsub', hwell⟩ := ih hkept
      exact ⟨cuts, g', htraces, houts, hsub'.trans hall, hwell⟩

/-! ### The window -/

/-- The window with the numbers of the calls: it takes the new packet in between the others and
releases from its front. -/
theorem exists_windowStep_entries {pending : List (RtpPacket β)} {w : List (ℕ × RtpPacket β)}
    (h : pending = w.map Prod.snd) (e : ℕ × RtpPacket β) :
    ∃ flushed w' : List (ℕ × RtpPacket β),
      (windowStep pending e.2).1 = flushed.map Prod.snd ∧
      (windowStep pending e.2).2 = w'.map Prod.snd ∧ (flushed ++ w').Perm (e :: w) := by
  obtain ⟨earlier, later, hpending, hinsert, -, -⟩ := exists_insertSorted pending e.2
  rw [h] at hpending
  obtain ⟨front, back, hw, hfront, hback⟩ := List.map_eq_append_iff.mp hpending
  have hentries : (front ++ e :: back).map Prod.snd =
      (windowStep pending e.2).1 ++ (windowStep pending e.2).2 := by
    rw [windowStep_append, hinsert, List.map_append, List.map_cons, hfront, hback]
  obtain ⟨flushed, w', hsplit, hflushed, hkept⟩ := List.map_eq_append_iff.mp hentries
  refine ⟨flushed, w', hflushed.symm, hkept.symm, ?_⟩
  rw [← hsplit, hw]
  exact List.perm_middle

/-! ### Runs -/

variable (extract : List β → UInt32 → List ν)

theorem runInputs_concat (r : FrameReassembler β) (inputs : List (Input β)) (i : Input β) :
    runInputs extract r (inputs ++ [i]) =
      (((runInputs extract r inputs).1.input extract i).1,
        (runInputs extract r inputs).2 ++
          [((runInputs extract r inputs).1.input extract i).2]) := by
  induction inputs generalizing r with
  | nil => rfl
  | cons first inputs ih => simp only [List.cons_append, runInputs, ih]

theorem push_eq (r : FrameReassembler β) (pkt : RtpPacket β) :
    (push extract r pkt).1 =
        (feedAll extract r (windowStep r.pending pkt).1).1.withWindow
          (windowStep r.pending pkt).2 (r.stats.packets + 1) ∧
      (push extract r pkt).2.1 = (feedAll extract r (windowStep r.pending pkt).1).2.1 := by
  have hpush : push extract r pkt =
      feedAll extract (r.withWindow (windowStep r.pending pkt).2 (r.stats.packets + 1))
        (windowStep r.pending pkt).1 := rfl
  rw [hpush, feedAll_withWindow]
  exact ⟨rfl, rfl⟩

/-- A packet stays as it is while calls follow that are no reset. -/
theorem Live.push {inputs : List (Input β)} {k : ℕ} {e : ℕ × RtpPacket β} (h : Live inputs k e)
    (hk : k + 1 = inputs.length) (pkt : RtpPacket β) :
    Live (inputs ++ [.push pkt]) (k + 1) e := by
  have hbefore := h.before
  refine ⟨?_, by omega, ?_⟩
  · rw [List.getElem?_append_left (by omega)]
    exact h.pushed
  · intro j hlow hhigh
    rcases Nat.lt_or_ge j inputs.length with hin | hout
    · rw [List.getElem?_append_left hin]
      exact h.unreset j hlow (by omega)
    · have hj : j = inputs.length := by omega
      rw [hj, List.getElem?_concat_length]
      simp

/-- Later calls do not change what was known at call `k`. -/
theorem Live.append {inputs : List (Input β)} {k : ℕ} {e : ℕ × RtpPacket β} (h : Live inputs k e)
    (hk : k < inputs.length) (later : List (Input β)) : Live (inputs ++ later) k e := by
  have hbefore := h.before
  refine ⟨?_, h.before, ?_⟩
  · rw [List.getElem?_append_left (by omega)]
    exact h.pushed
  · intro j hlow hhigh
    rw [List.getElem?_append_left (by omega)]
    exact h.unreset j hlow hhigh

/-- The reassembler after the calls `inputs`, which have cut `cuts`: `g` are the packets of the
partial frame and `w` those of the window. -/
structure Sourced (inputs : List (Input β)) (r : FrameReassembler β) (cuts : List (List (Cut β)))
    (g w : List (ℕ × RtpPacket β)) : Prop where
  length : cuts.length = inputs.length
  pending : r.pending = w.map Prod.snd
  window : r.pending.length < REASSEMBLER_WINDOW_SIZE
  traces : Traces r g
  distinct : ((cuts.flatten.flatMap Cut.packets ++ (g ++ w)).map Prod.fst).Nodup
  wellCut : ∀ c ∈ cuts.flatten, WellCut c
  cutLive : ∀ k frames, cuts[k]? = some frames → ∀ c ∈ frames, ∀ e ∈ c.packets, Live inputs k e
  live : ∀ e ∈ g ++ w, Live inputs (inputs.length - 1) e

theorem Live.lt {inputs : List (Input β)} {k : ℕ} {e : ℕ × RtpPacket β} (h : Live inputs k e) :
    e.1 < inputs.length := by
  obtain ⟨hlt, -⟩ := List.getElem?_eq_some_iff.mp h.pushed
  exact hlt

section Step

variable {inputs : List (Input β)} {r : FrameReassembler β}
  {cuts : List (List (Cut β))} {g w : List (ℕ × RtpPacket β)}

theorem Sourced.lt (h : Sourced inputs r cuts g w) :
    ∀ e ∈ cuts.flatten.flatMap Cut.packets ++ (g ++ w), e.1 < inputs.length := by
  intro e he
  rcases List.mem_append.mp he with hcut | hheld
  · obtain ⟨c, hc, hpacket⟩ := List.mem_flatMap.mp hcut
    obtain ⟨frames, hframes, hmem⟩ := List.mem_flatten.mp hc
    obtain ⟨k, hk⟩ := List.mem_iff_getElem?.mp hframes
    exact (h.cutLive k frames hk c hmem e hpacket).lt
  · exact (h.live e hheld).lt

/-- The frames cut so far stay what they are when another call follows. -/
theorem Sourced.cutLive_concat (h : Sourced inputs r cuts g w) (i : Input β)
    {frames : List (Cut β)}
    (hframes : ∀ c ∈ frames, ∀ e ∈ c.packets, Live (inputs ++ [i]) inputs.length e) :
    ∀ k frames', (cuts ++ [frames])[k]? = some frames' → ∀ c ∈ frames', ∀ e ∈ c.packets,
      Live (inputs ++ [i]) k e := by
  intro k frames' hk c hc e he
  rcases Nat.lt_or_ge k cuts.length with hin | hout
  · rw [List.getElem?_append_left hin] at hk
    exact (h.cutLive k frames' hk c hc e he).append (h.length ▸ hin) [i]
  · have hlast : k = cuts.length := by
      have hbound := (List.getElem?_eq_some_iff.mp hk).1
      rw [List.length_append, List.length_singleton] at hbound
      omega
    rw [hlast, List.getElem?_concat_length, Option.some.injEq] at hk
    rw [hlast, h.length]
    subst hk
    exact hframes c hc e he

/-- `reset_stream` lets go of the partial frame and of the window. -/
theorem Sourced.resetStream (h : Sourced inputs r cuts g w) :
    Sourced (inputs ++ [.resetStream]) (resetStream r) (cuts ++ [[]]) [] [] where
  length := by simp [h.length]
  pending := rfl
  window := Nat.zero_lt_succ 7
  traces := traces_nil rfl
  distinct := by
    have hdistinct := h.distinct
    rw [List.map_append] at hdistinct
    simpa using hdistinct.of_append_left
  wellCut := by simpa using h.wellCut
  cutLive := h.cutLive_concat .resetStream (by simp)
  live := by simp

/-- `push` moves packets from the window to the partial frame and from there to the frames it cuts,
and adds its own. -/
theorem Sourced.push (h : Sourced inputs r cuts g w) (pkt : RtpPacket β) :
    ∃ frames g' w', (push extract r pkt).2.1 = frames.flatMap (Cut.units extract) ∧
      Sourced (inputs ++ [.push pkt]) (push extract r pkt).1 (cuts ++ [frames]) g' w' := by
  obtain ⟨flushed, w', hflushed, hkept, hperm⟩ :=
    exists_windowStep_entries h.pending (inputs.length, pkt)
  obtain ⟨frames, g', htraces, hunits, hsub, hwell⟩ := h.traces.feedAll extract flushed
  rw [← hflushed] at htraces hunits
  obtain ⟨hstate, houtput⟩ := push_eq extract r pkt
  -- The packets of the new frames, of the partial frame and of the window are those from before
  -- and the new one.
  have hmoved : (frames.flatMap Cut.packets ++ (g' ++ w')).Subperm
      ((inputs.length, pkt) :: (g ++ w)) := by
    rw [← List.append_assoc]
    refine (hsub.append_right w').subperm.trans (List.Perm.subperm ?_)
    rw [List.append_assoc]
    exact (hperm.append_left g).trans List.perm_middle
  have hlive : ∀ e ∈ frames.flatMap Cut.packets ++ (g' ++ w'),
      Live (inputs ++ [.push pkt]) inputs.length e := by
    intro e he
    rcases List.mem_cons.mp (hmoved.subset he) with rfl | hheld
    · refine ⟨List.getElem?_concat_length, Nat.le_refl _, ?_⟩
      intro j hlow hhigh
      omega
    · have hlt := (h.live e hheld).lt
      have hlast : inputs.length - 1 + 1 = inputs.length := by omega
      rw [← hlast]
      exact (h.live e hheld).push hlast pkt
  refine ⟨frames, g', w', houtput.trans hunits, ?_, ?_, ?_, ?_, ?_, ?_, ?_, ?_⟩
  · simp [h.length]
  · rw [hstate]
    exact hkept
  · rw [hstate]
    exact windowStep_length h.window
  · rw [hstate]
    exact htraces.withWindow _ _
  · have hall : (cuts.flatten.flatMap Cut.packets ++
        ((inputs.length, pkt) :: (g ++ w))).map Prod.fst |>.Nodup := by
      rw [(List.perm_middle.map Prod.fst).nodup_iff, List.map_cons, List.nodup_cons]
      refine ⟨?_, h.distinct⟩
      intro hmem
      obtain ⟨e, he, hindex⟩ := List.mem_map.mp hmem
      exact absurd (h.lt e he) (by rw [hindex]; exact Nat.lt_irrefl _)
    have hnew : (cuts ++ [frames]).flatten.flatMap Cut.packets =
        cuts.flatten.flatMap Cut.packets ++ frames.flatMap Cut.packets := by
      rw [List.flatten_append, List.flatMap_append, List.flatten_singleton]
    rw [hnew, List.append_assoc]
    obtain ⟨some, hsame, hsome⟩ :=
      (List.subperm_append_left (cuts.flatten.flatMap Cut.packets)).mpr hmoved
    exact (hsame.map Prod.fst).nodup_iff.mp (hall.sublist (hsome.map Prod.fst))
  · intro c hc
    rw [List.flatten_append, List.flatten_singleton] at hc
    rcases List.mem_append.mp hc with hold | hnew
    · exact h.wellCut c hold
    · exact hwell c hnew
  · refine h.cutLive_concat (.push pkt) ?_
    intro c hc e he
    exact hlive e (List.mem_append_left _ (List.mem_flatMap.mpr ⟨c, hc, he⟩))
  · intro e he
    rw [List.length_append, List.length_singleton, Nat.add_sub_cancel]
    exact hlive e (List.mem_append_right _ he)

end Step

/-- Every run is sourced. -/
theorem exists_sourced (inputs : List (Input β)) :
    ∃ cuts g w, (runInputs extract .new inputs).2 = cuts.map (List.flatMap (Cut.units extract)) ∧
      Sourced inputs (runInputs extract .new inputs).1 cuts g w := by
  induction inputs using List.reverseRecOn with
  | nil =>
    refine ⟨[], [], [], rfl, rfl, rfl, Nat.zero_lt_succ 7, traces_nil rfl, ?_, ?_, ?_, ?_⟩
    · exact List.nodup_nil
    · simp
    · simp
    · simp
  | append_singleton inputs i ih =>
    obtain ⟨cuts, g, w, hunits, hsourced⟩ := ih
    rw [runInputs_concat]
    cases i with
    | push pkt =>
      obtain ⟨frames, g', w', houtput, hnext⟩ := hsourced.push extract pkt
      refine ⟨cuts ++ [frames], g', w', ?_, hnext⟩
      rw [List.map_append, List.map_singleton, hunits, ← houtput]
      rfl
    | resetStream =>
      refine ⟨cuts ++ [[]], [], [], ?_, hsourced.resetStream⟩
      rw [List.map_append, List.map_singleton, hunits]
      rfl

/-- Any calls of `push` and `reset_stream` with any packets. The window keeps at most seven packets
and the partial frame stays within the cap. Every call returns the units of the frames it cuts, and
each of these is the concatenation of the payloads of different pushed packets, in an order in which
the sequence numbers go up by one to nine. No packet is in two frames, and none is in a frame that
is cut behind a reset which followed it. -/
theorem runInputs_traced (inputs : List (Input β)) :
    (runInputs extract .new inputs).1.pending.length ≤ REASSEMBLER_WINDOW_SIZE - 1 ∧
      (runInputs extract .new inputs).1.frameBuf.length ≤ FRAME_MAX_BYTES ∧
      ∃ cuts : List (List (Cut β)), Traced inputs cuts ∧
        (runInputs extract .new inputs).2 = cuts.map (List.flatMap (Cut.units extract)) := by
  obtain ⟨cuts, g, w, hunits, h⟩ := exists_sourced extract inputs
  refine ⟨Nat.le_sub_one_of_lt h.window, h.traces.sized, cuts, ⟨?_, ?_, ?_, ?_⟩, hunits⟩
  · have hdistinct := h.distinct
    rw [List.map_append, List.map_flatMap] at hdistinct
    exact hdistinct.of_append_left
  · exact fun c hc ↦ (h.wellCut c hc).ordered
  · exact fun c hc ↦ (h.wellCut c hc).sized
  · exact h.cutLive

end Provenance

end DoorAccess.Video
