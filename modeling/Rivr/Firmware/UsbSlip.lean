import Rivr.ForMathlib.ByteStuffing
import Rivr.Firmware.Protocol

/-!
# Frames on the USB line

The SLIP decoder and encoder of `firmware_core/iface/rivr_iface_usb.c`. The encoder's frames are
stuffed packets between two marks (`Stuffing`). The decoder keeps two things, the bytes of the
packet so far and whether an escape is pending, and no record that a packet was given up: after a
wrong escape or a packet that is too long, it takes what follows for a new packet.
-/

namespace Rivr

/-! ### The code -/

/-- The marks of RFC 1055. -/
def slip : Stuffing UInt8 where
  stop := 0xC0
  esc := 0xDB
  escStop := 0xDC
  escEsc := 0xDD
  nodup := by decide

/-- `rivr_iface_usb_send`: the bytes that are written to the line. -/
def rivrIfaceUsbSend (data : List UInt8) : Option (List UInt8) :=
  if data.isEmpty ∨ data.length > rfMaxPayloadLen.toNat then none
  else some (slip.stop :: (slip.stuff data ++ [slip.stop]))

/-- `slip_rx_t`: the first `len` bytes of the buffer, and whether the last byte was an escape. -/
@[ext]
structure SlipRx where
  buf : List UInt8
  esc : Bool
  deriving DecidableEq, Repr

/-- The decoder at the start. -/
def SlipRx.new : SlipRx := ⟨[], false⟩

/-- The end of `slip_feed`: the byte is appended if there is room. -/
def slipAppend (rx : SlipRx) (b : UInt8) : SlipRx :=
  if rx.buf.length < rfMaxPayloadLen.toNat then { rx with buf := rx.buf ++ [b] } else ⟨[], false⟩

/-- `slip_feed`: the decoder, and the frame if one is complete. -/
def slipFeed (rx : SlipRx) (b : UInt8) : SlipRx × Option (List UInt8) :=
  if b = slip.stop then
    if rx.buf ≠ [] then (⟨[], false⟩, some rx.buf)
    -- nothing to deliver: the pending escape stays as it is
    else (rx, none)
  else if rx.esc then
    if b = slip.escStop then (slipAppend ⟨rx.buf, false⟩ slip.stop, none)
    else if b = slip.escEsc then (slipAppend ⟨rx.buf, false⟩ slip.esc, none)
    else (⟨[], false⟩, none)
  else if b = slip.esc then ({ rx with esc := true }, none)
  else (slipAppend rx b, none)

/-- Feeding bytes: the decoder behind them, and the frames that it delivered. -/
def slipFeedAll : SlipRx → List UInt8 → SlipRx × List (List UInt8)
  | rx, [] => (rx, [])
  | rx, b :: bytes =>
    let (rx, frame) := slipFeed rx b
    let (rx, frames) := slipFeedAll rx bytes
    (rx, frame.toList ++ frames)

/-! ### Feeding in pieces -/

variable {rx : SlipRx} {b : UInt8} {bytes bytes' frame : List UInt8}

theorem slipFeedAll_cons : slipFeedAll rx (b :: bytes) =
    ((slipFeedAll (slipFeed rx b).1 bytes).1,
      (slipFeed rx b).2.toList ++ (slipFeedAll (slipFeed rx b).1 bytes).2) := rfl

theorem slipFeedAll_append : slipFeedAll rx (bytes ++ bytes') =
    ((slipFeedAll (slipFeedAll rx bytes).1 bytes').1,
      (slipFeedAll rx bytes).2 ++ (slipFeedAll (slipFeedAll rx bytes).1 bytes').2) := by
  induction bytes generalizing rx with
  | nil => rfl
  | cons b bytes ih => rw [List.cons_append, slipFeedAll_cons, ih, slipFeedAll_cons, List.append_assoc]

/-! ### One packet -/

theorem slipAppend_of_lt (h : rx.buf.length < rfMaxPayloadLen.toNat) :
    slipAppend rx b = { rx with buf := rx.buf ++ [b] } := if_pos h

/-- The stuffing of a byte appends the byte, as long as there is room. -/
theorem slipFeedAll_stuffOne {buf : List UInt8} (hroom : buf.length < rfMaxPayloadLen.toNat) :
    slipFeedAll ⟨buf, false⟩ (slip.stuffOne b) = (⟨buf ++ [b], false⟩, []) := by
  rcases slip.stuffOne_cases b with ⟨rfl, heq⟩ | ⟨rfl, heq⟩ | ⟨hstop, hesc, heq⟩
  · rw [heq]
    exact Prod.ext (slipAppend_of_lt hroom) rfl
  · rw [heq]
    exact Prod.ext (slipAppend_of_lt hroom) rfl
  · rw [heq, slipFeedAll_cons, slipFeed, if_neg hstop, if_neg Bool.false_ne_true, if_neg hesc,
      slipAppend_of_lt hroom]
    rfl

theorem slipFeedAll_stuff {buf : List UInt8} (hroom : buf.length + frame.length ≤ rfMaxPayloadLen.toNat) :
    slipFeedAll ⟨buf, false⟩ (slip.stuff frame) = (⟨buf ++ frame, false⟩, []) := by
  induction frame generalizing buf with
  | nil => rw [Stuffing.stuff_nil, List.append_nil, slipFeedAll]
  | cons b frame ih =>
    rw [List.length_cons] at hroom
    rw [Stuffing.stuff_cons, slipFeedAll_append, slipFeedAll_stuffOne (by omega),
      ih (by rw [List.length_append, List.length_singleton]; omega), List.append_assoc]
    rfl

/-- A mark behind some bytes delivers them. -/
theorem slipFeed_stop {buf : List UInt8} (h : buf ≠ []) {esc : Bool} :
    slipFeed ⟨buf, esc⟩ slip.stop = (.new, some buf) := by
  rw [slipFeed, if_pos rfl, if_pos h]
  rfl

theorem slipFeed_stop_nil {esc : Bool} : slipFeed ⟨[], esc⟩ slip.stop = (⟨[], esc⟩, none) := rfl

/-- **A frame is received**: its bytes and a mark, fed to an empty decoder without a pending
escape. -/
theorem slipFeedAll_frame (hpos : frame ≠ []) (hlen : frame.length ≤ rfMaxPayloadLen.toNat) :
    slipFeedAll .new (slip.stuff frame ++ [slip.stop]) = (.new, [frame]) := by
  have hroom : ([] : List UInt8).length + frame.length ≤ rfMaxPayloadLen.toNat := by
    rwa [List.length_nil, Nat.zero_add]
  have hstuff := slipFeedAll_stuff hroom
  rw [List.nil_append] at hstuff
  rw [slipFeedAll_append, SlipRx.new, hstuff, slipFeedAll_cons, slipFeed_stop hpos]
  rfl

/-! ### After any junk -/

/-- The decoder behind a mark. -/
theorem slipFeedAll_stop (rx : SlipRx) :
    (¬(rx.buf = [] ∧ rx.esc = true) ∧ (slipFeedAll rx [slip.stop]).1 = .new) ∨
      ((rx.buf = [] ∧ rx.esc = true) ∧ (slipFeedAll rx [slip.stop]).1 = ⟨[], true⟩) := by
  obtain ⟨buf, esc⟩ := rx
  by_cases hnil : buf = []
  · subst hnil
    cases esc with
    | false => exact .inl ⟨fun h => Bool.false_ne_true h.2, rfl⟩
    | true => exact .inr ⟨⟨rfl, rfl⟩, rfl⟩
  · rw [slipFeedAll_cons, slipFeed_stop hnil]
    exact .inl ⟨fun h => hnil h.1, rfl⟩

/-- The first byte of a stuffed frame, with an escape pending that does not belong to it: the byte
is lost or taken for another one. -/
theorem slipFeedAll_stuffOne_pending (b : UInt8) :
    ∃ buf, slipFeedAll ⟨[], true⟩ (slip.stuffOne b) = (⟨buf, false⟩, []) ∧ buf.length ≤ 1 ∧
      buf ≠ [b] := by
  rcases slip.stuffOne_cases b with ⟨rfl, heq⟩ | ⟨rfl, heq⟩ | ⟨hstop, hesc, heq⟩
  · rw [heq]
    exact ⟨[slip.escStop], rfl, Nat.le_refl _, by decide⟩
  · rw [heq]
    exact ⟨[slip.escEsc], rfl, Nat.le_refl _, by decide⟩
  · rw [heq, slipFeedAll_cons, slipFeed, if_neg hstop, if_pos rfl]
    by_cases hescStop : b = slip.escStop
    · subst hescStop
      exact ⟨[slip.stop], rfl, Nat.le_refl _, by decide⟩
    rw [if_neg hescStop]
    by_cases hescEsc : b = slip.escEsc
    · subst hescEsc
      exact ⟨[slip.esc], rfl, Nat.le_refl _, by decide⟩
    rw [if_neg hescEsc]
    exact ⟨[], rfl, Nat.zero_le _, by simp⟩

/-- A frame that meets a pending escape is not received. -/
theorem slipFeedAll_frame_pending (hlen : frame.length ≤ rfMaxPayloadLen.toNat) :
    (slipFeedAll ⟨[], true⟩ (slip.stuff frame ++ [slip.stop])).2 ≠ [frame] := by
  cases frame with
  | nil => simp [slipFeedAll, slipFeed_stop_nil]
  | cons b frame =>
    rw [List.length_cons] at hlen
    obtain ⟨buf, hfirst, hbuf, hne⟩ := slipFeedAll_stuffOne_pending b
    rw [Stuffing.stuff_cons, List.append_assoc, slipFeedAll_append, hfirst, slipFeedAll_append,
      slipFeedAll_stuff (by omega), slipFeedAll_cons]
    by_cases hnil : buf ++ frame = []
    · simp [hnil, slipFeed_stop_nil, slipFeedAll]
    · rw [slipFeed_stop hnil]
      intro heq
      have hwhole : buf ++ frame = b :: frame := by simpa [slipFeedAll] using heq
      exact hne (List.append_cancel_right (hwhole.trans (List.singleton_append).symm))

/-- **After any bytes**, the frame that the encoder writes is received exactly when these bytes do
not leave the decoder with no packet and a pending escape. -/
theorem slipFeedAll_send_iff (rx : SlipRx) (hpos : frame ≠ [])
    (hlen : frame.length ≤ rfMaxPayloadLen.toNat) :
    (slipFeedAll rx (slip.stop :: (slip.stuff frame ++ [slip.stop]))).2 =
        (slipFeedAll rx [slip.stop]).2 ++ [frame] ↔
      ¬(rx.buf = [] ∧ rx.esc = true) := by
  rw [← List.singleton_append, slipFeedAll_append, List.append_cancel_left_eq]
  rcases slipFeedAll_stop rx with ⟨hclean, hnew⟩ | ⟨hstray, hpending⟩
  · rw [hnew, slipFeedAll_frame hpos hlen]
    exact iff_of_true rfl hclean
  · rw [hpending]
    exact iff_of_false (slipFeedAll_frame_pending hlen) (not_not_intro hstray)

/-! ### What is delivered -/

/-- The byte is none of those that spoil a packet: a wrong escape, a mark behind an escape, or one
byte too many. -/
def SlipStepOk (rx : SlipRx) (b : UInt8) : Prop :=
  if rx.esc then (b = slip.escStop ∨ b = slip.escEsc) ∧ rx.buf.length < rfMaxPayloadLen.toNat
  else b = slip.stop ∨ b = slip.esc ∨ rx.buf.length < rfMaxPayloadLen.toNat

/-- No byte spoils a packet. -/
def SlipOk : SlipRx → List UInt8 → Prop
  | _, [] => True
  | rx, b :: bytes => SlipStepOk rx b ∧ SlipOk (slipFeed rx b).1 bytes

/-- The bytes seen so far end in a mark and the stuffing of what the decoder holds. -/
structure SlipRx.Framed (rx : SlipRx) (seen : List UInt8) : Prop where
  run : ∃ before, seen =
    before ++ slip.stop :: (slip.stuff rx.buf ++ if rx.esc then [slip.esc] else [])
  fits : rx.buf.length ≤ rfMaxPayloadLen.toNat

/-- The frame is the content of a well escaped run of the bytes between two marks, and fits. -/
def SlipFramed (bytes frame : List UInt8) : Prop :=
  ∃ before run after, bytes = before ++ slip.stop :: (run ++ slip.stop :: after) ∧
    slip.unstuff run = some frame ∧ frame.length ≤ rfMaxPayloadLen.toNat

variable {seen : List UInt8}

/-- A byte of the packet is appended to what the decoder holds. -/
theorem SlipRx.Framed.append {buf : List UInt8} {esc : Bool}
    (h : SlipRx.Framed ⟨buf, esc⟩ seen) (hroom : buf.length < rfMaxPayloadLen.toNat) {c : UInt8}
    (hone : (if esc then [slip.esc] else []) ++ [b] = slip.stuffOne c) :
    SlipRx.Framed ⟨buf ++ [c], false⟩ (seen ++ [b]) := by
  obtain ⟨⟨before, hseen⟩, -⟩ := h
  refine ⟨⟨before, ?_⟩, ?_⟩
  · rw [hseen, if_neg Bool.false_ne_true, List.append_nil, Stuffing.stuff_append,
      Stuffing.stuff_singleton, ← hone, List.append_assoc, List.cons_append, List.append_assoc]
  · rw [List.length_append, List.length_singleton]
    exact hroom

/-- **One step**: as long as no byte spoils a packet, the run goes on or it is delivered. -/
theorem SlipRx.Framed.step (h : rx.Framed seen) (hok : SlipStepOk rx b) :
    (slipFeed rx b).1.Framed (seen ++ [b]) ∧
      ∀ frame ∈ (slipFeed rx b).2, SlipFramed (seen ++ [b]) frame := by
  obtain ⟨buf, esc⟩ := rx
  cases esc with
  | true =>
    rw [SlipStepOk, if_pos rfl] at hok
    obtain ⟨rfl | rfl, hroom⟩ := hok
    · have hfeed : slipFeed ⟨buf, true⟩ slip.escStop = (⟨buf ++ [slip.stop], false⟩, none) :=
        Prod.ext (slipAppend_of_lt hroom) rfl
      rw [hfeed]
      exact ⟨h.append hroom Stuffing.stuffOne_stop.symm, fun frame hframe => by simp at hframe⟩
    · have hfeed : slipFeed ⟨buf, true⟩ slip.escEsc = (⟨buf ++ [slip.esc], false⟩, none) :=
        Prod.ext (slipAppend_of_lt hroom) rfl
      rw [hfeed]
      exact ⟨h.append hroom Stuffing.stuffOne_esc.symm, fun frame hframe => by simp at hframe⟩
  | false =>
    rw [SlipStepOk, if_neg Bool.false_ne_true] at hok
    obtain ⟨⟨before, hseen⟩, hfits⟩ := id h
    rw [if_neg Bool.false_ne_true, List.append_nil] at hseen
    by_cases hstop : b = slip.stop
    · -- the end of the run
      subst hstop
      have hnext : SlipRx.new.Framed (seen ++ [slip.stop]) :=
        ⟨⟨seen, by rfl⟩, Nat.zero_le _⟩
      by_cases hnil : buf = []
      · subst hnil
        rw [slipFeed_stop_nil]
        exact ⟨hnext, fun frame hframe => by simp at hframe⟩
      · rw [slipFeed_stop hnil]
        refine ⟨hnext, fun frame hframe => ?_⟩
        obtain rfl : buf = frame := by simpa using hframe
        refine ⟨before, slip.stuff buf, [], ?_, Stuffing.unstuff_stuff buf, hfits⟩
        rw [hseen, List.append_assoc, List.cons_append]
    by_cases hesc : b = slip.esc
    · subst hesc
      refine ⟨⟨⟨before, ?_⟩, hfits⟩, fun frame hframe => ?_⟩
      · rw [hseen, List.append_assoc, List.cons_append]
        rfl
      · simp [slipFeed, slip] at hframe
    · have hroom := (hok.resolve_left hstop).resolve_left hesc
      have hfeed : slipFeed ⟨buf, false⟩ b = (⟨buf ++ [b], false⟩, none) := by
        rw [slipFeed, if_neg hstop, if_neg Bool.false_ne_true, if_neg hesc, slipAppend_of_lt hroom]
      rw [hfeed]
      exact ⟨h.append hroom (Stuffing.stuffOne_of_ne hstop hesc).symm,
        fun frame hframe => by simp at hframe⟩

theorem SlipFramed.append (h : SlipFramed bytes frame) (bytes' : List UInt8) :
    SlipFramed (bytes ++ bytes') frame := by
  obtain ⟨before, run, after, hbytes, hrun⟩ := h
  refine ⟨before, run, after ++ bytes', ?_, hrun⟩
  rw [hbytes, List.append_assoc, List.cons_append, List.append_assoc, List.cons_append]

/-- **A run**: every frame that is delivered stands between two marks. -/
theorem SlipRx.Framed.run_delivers (h : rx.Framed seen) (hok : SlipOk rx bytes) :
    ∀ frame ∈ (slipFeedAll rx bytes).2, SlipFramed (seen ++ bytes) frame := by
  induction bytes generalizing rx seen with
  | nil => exact fun frame hframe => absurd hframe List.not_mem_nil
  | cons b bytes ih =>
    obtain ⟨hstep, hrest⟩ := hok
    obtain ⟨hnext, hdelivered⟩ := h.step hstep
    intro frame hframe
    rw [slipFeedAll_cons, List.mem_append] at hframe
    rw [List.append_cons]
    rcases hframe with hframe | hframe
    · exact (hdelivered frame (Option.mem_toList.mp hframe)).append bytes
    · exact ih hnext hrest frame hframe

/-- What the encoder writes. -/
theorem rivrIfaceUsbSend_eq_some_iff {encoded : List UInt8} :
    rivrIfaceUsbSend frame = some encoded ↔ (frame ≠ [] ∧ frame.length ≤ rfMaxPayloadLen.toNat) ∧
      encoded = slip.stop :: (slip.stuff frame ++ [slip.stop]) := by
  rw [rivrIfaceUsbSend]
  split_ifs with hguard
  · refine iff_of_false (by simp) fun h => ?_
    rcases hguard with hnil | hlong
    · exact h.1.1 (List.isEmpty_iff.mp hnil)
    · exact absurd h.1.2 (Nat.not_le.mpr hlong)
  · rw [not_or, List.isEmpty_iff, gt_iff_lt, Nat.not_lt] at hguard
    rw [Option.some_inj, and_iff_right hguard, eq_comm]

/-- The buffer of the encoder is large enough. -/
theorem length_rivrIfaceUsbSend {encoded : List UInt8} (h : rivrIfaceUsbSend frame = some encoded) :
    encoded.length ≤ rfMaxPayloadLen.toNat * 2 + 2 := by
  obtain ⟨⟨-, hlen⟩, rfl⟩ := rivrIfaceUsbSend_eq_some_iff.mp h
  have hstuff := slip.length_stuff_le frame
  rw [List.length_cons, List.length_append, List.length_singleton]
  omega

/-- **The decoder on a stream.** A frame that is sent after any bytes is received exactly when they
do not leave the decoder with no packet and a pending escape. On a stream that begins with a mark
and in which no byte spoils a packet, every delivered frame stands well escaped between two
marks. -/
theorem slip_receives (bytes : List UInt8) :
    (∀ frame encoded, rivrIfaceUsbSend frame = some encoded →
      ((slipFeedAll .new (bytes ++ encoded)).2 =
          (slipFeedAll .new (bytes ++ [slip.stop])).2 ++ [frame] ↔
        ¬((slipFeedAll .new bytes).1.buf = [] ∧ (slipFeedAll .new bytes).1.esc = true))) ∧
      (bytes.head? = some slip.stop → SlipOk .new bytes →
        ∀ frame ∈ (slipFeedAll .new bytes).2, SlipFramed bytes frame) := by
  constructor
  · intro frame encoded hsend
    obtain ⟨⟨hpos, hlen⟩, rfl⟩ := rivrIfaceUsbSend_eq_some_iff.mp hsend
    rw [slipFeedAll_append, slipFeedAll_append, List.append_assoc, List.append_cancel_left_eq]
    exact slipFeedAll_send_iff _ hpos hlen
  · intro hhead hok
    cases bytes with
    | nil => exact fun frame hframe => absurd hframe List.not_mem_nil
    | cons b bytes =>
      obtain rfl : b = slip.stop := Option.some.inj hhead
      have hframed : SlipRx.new.Framed [slip.stop] := ⟨⟨[], rfl⟩, Nat.zero_le _⟩
      exact hframed.run_delivers hok.2

/-- Two frames with a mark and an escape in them, behind a mark. -/
theorem slip_receives_twoFrames :
    SlipFramed [0xC0, 1, 0xDB, 0xDC, 0xC0, 0xC0, 0xDB, 0xDD, 2, 0xC0] [0xDB, 2] := by
  refine (slip_receives _).2 rfl ?_ [0xDB, 2] (by decide)
  simp [SlipOk, SlipStepOk, slipFeed, slipAppend, slip, SlipRx.new, rfMaxPayloadLen]

/-! ### The tail of a packet that is given up -/

/-- A byte that spoils a packet and is no mark empties the decoder. -/
theorem slipFeed_of_spoiled (h : ¬SlipStepOk rx b) (hstop : b ≠ slip.stop) :
    slipFeed rx b = (.new, none) := by
  rw [SlipStepOk] at h
  rw [slipFeed, if_neg hstop]
  split_ifs at h ⊢ with hesc hescStop hescEsc hescape
  · rw [slipAppend, if_neg fun hroom => h ⟨.inl hescStop, hroom⟩]
    rfl
  · rw [slipAppend, if_neg fun hroom => h ⟨.inr hescEsc, hroom⟩]
    rfl
  · rfl
  · exact absurd (.inr (.inl hescape)) h
  · rw [slipAppend, if_neg fun hroom => h (.inr (.inr hroom))]
    rfl

/-- What follows the byte is delivered as a frame of its own. -/
theorem slipFeedAll_tail (h : ¬SlipStepOk rx b) (hstop : b ≠ slip.stop) (hpos : frame ≠ [])
    (hlen : frame.length ≤ rfMaxPayloadLen.toNat) :
    (slipFeedAll rx (b :: (slip.stuff frame ++ [slip.stop]))).2 = [frame] := by
  rw [slipFeedAll_cons, slipFeed_of_spoiled h hstop, slipFeedAll_frame hpos hlen]
  rfl

/-- The tail of a packet with a wrong escape is delivered. -/
theorem not_slip_receives : ¬∀ bytes : List UInt8,
    (∀ frame encoded, rivrIfaceUsbSend frame = some encoded →
      (slipFeedAll .new (bytes ++ encoded)).2 =
        (slipFeedAll .new (bytes ++ [slip.stop])).2 ++ [frame]) ∧
      ∀ frame ∈ (slipFeedAll .new bytes).2, SlipFramed bytes frame := by
  intro h
  have htail : [2] ∈ (slipFeedAll .new [0xC0, 1, 0xDB, 5, 2, 0xC0]).2 := by decide
  obtain ⟨before, run, after, hbytes, hrun, -⟩ := (h [0xC0, 1, 0xDB, 5, 2, 0xC0]).2 [2] htail
  rw [Stuffing.unstuff_eq_some_iff] at hrun
  have hinfix : [0xC0, 2, 0xC0] <:+: [0xC0, 1, 0xDB, 5, 2, (0xC0 : UInt8)] := by
    refine ⟨before, after, ?_⟩
    rw [hbytes, hrun, List.append_assoc]
    rfl
  exact absurd hinfix (by decide)

end Rivr
