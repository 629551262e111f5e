import Rivr.Firmware.PolicyParams
import Rivr.Firmware.Reception
import Rivr.ForMathlib.Json

/-!
# The records of the services

What a node prints for a received frame: the `@CHT` and `@MAIL` records of `rivr_layer/rivr_svc.c`,
with the mailbox that `handle_mailbox_store` fills, and the `@BCN` record of
`rivr_layer/rivr_sources.c`. The `@TEL` and `@ALERT` records have numbers only and are left out, and
so is what goes to the console and to the BLE companion.

A record is well formed when it is one line, and after the prefix an object with the members of its
format (`RecordKind.WellFormed`). The texts of messages are made safe by `svc_json_text`
(`chars_svcJsonText`); the callsign of a beacon is printed as it came.
-/

open CString LittleEndian

namespace Rivr

variable {cfg : BuildConfig}

/-! ### Formats -/

/-- `"%d"`. -/
def fmtD (z : ℤ) : List UInt8 := if z < 0 then 45 :: fmtLu z.natAbs else fmtLu z.natAbs

/-- A digit of `"%x"`, or of `"%X"`. -/
def hexDigit (upper : Bool) (n : ℕ) : UInt8 :=
  if n < 10 then UInt8.ofNat (48 + n) else UInt8.ofNat ((if upper then 55 else 87) + n)

/-- `"%08lx"`, or `"%08lX"`. -/
def fmt08lx (upper : Bool) (v : UInt32) : List UInt8 :=
  (List.range 8).map fun i => hexDigit upper (v.toNat / 16 ^ (7 - i) % 16)

/-! ### Texts of messages -/

/-- The loop of `svc_json_text`: what it has written, and what is left of the source. -/
def svcJsonTextLoop (maxlen : ℕ) : List UInt8 → List UInt8 → List UInt8
  | dst, [] => dst
  | dst, c :: src =>
    if dst.length + 2 < maxlen then
      -- an escape that does not fit whole is left out, and the scan goes on
      if c = 34 then
        svcJsonTextLoop maxlen (if dst.length + 3 < maxlen then dst ++ [92, 34] else dst) src
      else if c = 92 then
        svcJsonTextLoop maxlen (if dst.length + 3 < maxlen then dst ++ [92, 92] else dst) src
      else if c < 0x20 ∨ c > 0x7E then svcJsonTextLoop maxlen (dst ++ [46]) src
      else svcJsonTextLoop maxlen (dst ++ [c]) src
    else dst

/-- `svc_json_text`: the string it leaves in a buffer of the length. -/
def svcJsonText (src : List UInt8) (maxlen : ℕ) : List UInt8 := svcJsonTextLoop maxlen [] src

/-! ### Records -/

/-- The records. A beacon's has the position of the sender when it is known. -/
inductive RecordKind where
  | cht | mail
  | bcn (positioned : Bool)
  deriving DecidableEq, Repr

/-- The prefix of the line. -/
def RecordKind.mark : RecordKind → List UInt8
  | .cht => ascii "@CHT "
  | .mail => ascii "@MAIL "
  | .bcn _ => ascii "@BCN "

/-- The members of the object. -/
def RecordKind.fields : RecordKind → List (List UInt8 × Json.Kind)
  | .cht => [(ascii "src", .string), (ascii "dst", .string), (ascii "chan", .number),
      (ascii "rssi", .number), (ascii "len", .number), (ascii "text", .string)]
  | .mail => [(ascii "src", .string), (ascii "to", .string), (ascii "seq", .number),
      (ascii "flags", .number), (ascii "stored", .boolean), (ascii "text", .string)]
  | .bcn positioned => [(ascii "src", .string), (ascii "cs", .string), (ascii "rssi", .number),
      (ascii "snr", .number), (ascii "hop", .number), (ascii "score", .number),
      (ascii "role", .number)] ++
      if positioned then [(ascii "lat", .number), (ascii "lon", .number)] else []

/-- A record: what is printed. -/
structure Record where
  kind : RecordKind
  line : List UInt8
  deriving DecidableEq

/-- The record is one line: its prefix, and an object with its members. -/
def Record.WellFormed (r : Record) : Prop :=
  ∃ text, r.line = r.kind.mark ++ text ++ [13, 10] ∧ (∀ b ∈ text, b ≠ 13 ∧ b ≠ 10) ∧
    Json.Object r.kind.fields text

/-! ### Chat -/

/-- `PKT_FLAG_CHANNEL`. -/
def pktFlagChannel : UInt8 := 0x08

/-- `RIVR_CHAT_CHAN_HDR_LEN`. -/
def rivrChatChanHdrLen : ℕ := 2

/-- The `@CHT` record. -/
def chtRecord (hdr : RivrPktHdr) (chanId : UInt16) (text : List UInt8) (rssiDbm : Int16) : Record :=
  ⟨.cht, ascii "@CHT \x7b\"src\":\"0x" ++ fmt08lx false hdr.srcId ++
    ascii "\",\"dst\":\"0x" ++ fmt08lx false hdr.dstId ++ ascii "\",\"chan\":" ++
    fmtLu chanId.toNat ++ ascii ",\"rssi\":" ++ fmtD rssiDbm.toInt ++ ascii ",\"len\":" ++
    fmtLu text.length ++ ascii ",\"text\":\"" ++
    svcJsonText text (rivrPktMaxPayload.toNat + 1) ++ ascii "\"\x7d\r\n"⟩

/-- The channel and the text of a chat payload. -/
def chatText (hdr : RivrPktHdr) (payload : List UInt8) : UInt16 × List UInt8 :=
  if hdr.flags &&& pktFlagChannel ≠ 0 ∧ rivrChatChanHdrLen ≤ payload.length then
    (u16OfBytes (payload.getD 0 0) (payload.getD 1 0), payload.drop rivrChatChanHdrLen)
  else (0, payload)

/-- `handle_chat_message`. -/
def handleChatMessage (hdr : RivrPktHdr) (payload : List UInt8) (rssiDbm : Int16) : List Record :=
  if payload = [] then []
  else
    let (chanId, text) := chatText hdr payload
    if text = [] then [] else [chtRecord hdr chanId text rssiDbm]

/-! ### Mail -/

/-- `SVC_MAILBOX_MAX_TEXT`. -/
def svcMailboxMaxText : ℕ := (rivrPktMaxPayload - svcMailboxHdrLen).toNat

/-- `MB_FLAG_NEW`. -/
def mbFlagNew : UInt8 := 0x01

/-- `MB_STORE_CAP`. -/
abbrev mbStoreCap : ℕ := 8

local instance neZero_mbStoreCap : NeZero mbStoreCap := ⟨by decide⟩

/-- `mailbox_entry_t` of an occupied slot. -/
structure MailboxEntry where
  srcId : UInt32
  recipientId : UInt32
  msgSeq : UInt16
  flags : UInt8
  text : List UInt8
  storedAtMs : UInt32
  deriving DecidableEq, Repr

/-- `mailbox_store_t`. -/
structure MailboxStore where
  entries : Vector (Option MailboxEntry) mbStoreCap
  head : Fin mbStoreCap
  count : ℕ
  count_le : count ≤ mbStoreCap
  deriving DecidableEq

/-- The store at power-on. -/
def MailboxStore.empty : MailboxStore := ⟨Vector.replicate mbStoreCap none, 0, 0, Nat.zero_le _⟩

/-- Storing an entry; a full store loses its oldest. -/
def MailboxStore.insert (store : MailboxStore) (e : MailboxEntry) : MailboxStore where
  entries := store.entries.set store.head.val (some e)
  head := store.head + 1
  count := min (store.count + 1) mbStoreCap
  count_le := min_le_right _ _

/-- The `@MAIL` record. -/
def mailRecord (hdr : RivrPktHdr) (recipientId : UInt32) (msgSeq : UInt16) (flags : UInt8)
    (forUs : Bool) (text : List UInt8) : Record :=
  ⟨.mail, ascii "@MAIL \x7b\"src\":\"0x" ++ fmt08lx false hdr.srcId ++ ascii "\",\"to\":\"0x" ++
    fmt08lx false recipientId ++ ascii "\",\"seq\":" ++ fmtLu msgSeq.toNat ++
    ascii ",\"flags\":" ++ fmtLu flags.toNat ++ ascii ",\"stored\":" ++
    (if forUs then ascii "true" else ascii "false") ++ ascii ",\"text\":\"" ++
    svcJsonText text (svcMailboxMaxText + 1) ++ ascii "\"\x7d\r\n"⟩

/-- `handle_mailbox_store`. -/
def handleMailboxStore (myNodeId : UInt32) (hdr : RivrPktHdr) (payload : List UInt8)
    (nowMs : UInt32) (store : MailboxStore) : MailboxStore × List Record :=
  if payload.length < svcMailboxHdrLen.toNat then (store, [])
  else
    let recipientId := u32OfBytes (payload.getD 0 0) (payload.getD 1 0) (payload.getD 2 0)
      (payload.getD 3 0)
    let msgSeq := u16OfBytes (payload.getD 4 0) (payload.getD 5 0)
    let flags := payload.getD 6 0
    let text := (payload.drop svcMailboxHdrLen.toNat).take svcMailboxMaxText
    let forUs : Bool := recipientId = myNodeId ∨ recipientId = 0
    -- a message for another node is printed, but not stored
    (if forUs then store.insert ⟨hdr.srcId, recipientId, msgSeq, flags ||| mbFlagNew, text, nowMs⟩
      else store,
      [mailRecord hdr recipientId msgSeq flags forUs text])

/-! ### Beacons -/

/-- `BEACON_PAYLOAD_LEN`. -/
def beaconPayloadLen : UInt8 := 12

/-- `BEACON_CALLSIGN_MAX`. -/
def beaconCallsignMax : ℕ := 10

/-- What the neighbour tables hold about the sender of a beacon when its record is printed. An
unknown coordinate is `INT32_MIN`. -/
structure BeaconView where
  score : UInt8
  latE7 : Int32
  lonE7 : Int32
  deriving DecidableEq, Repr

/-- The position of the sender is known. -/
def BeaconView.positioned (view : BeaconView) : Bool :=
  view.latE7 ≠ Int32.minValue ∧ view.lonE7 ≠ Int32.minValue

section

variable (fmtF7 : Int32 → List UInt8)

/-- The `@BCN` record; `fmtF7` is `"%.7f"` of a coordinate divided by `1e7`. -/
def bcnRecord (frame : RfRxFrame) (hdr : RivrPktHdr) (callsign : List UInt8) (beaconRole : UInt8)
    (view : BeaconView) : Record :=
  ⟨.bcn view.positioned, ascii "@BCN \x7b\"src\":\"0x" ++ fmt08lx true hdr.srcId ++
    ascii "\",\"cs\":\"" ++ callsign ++ ascii "\",\"rssi\":" ++ fmtD frame.rssiDbm.toInt ++
    ascii ",\"snr\":" ++ fmtD frame.snrDb.toInt ++ ascii ",\"hop\":" ++ fmtLu hdr.hop.toNat ++
    ascii ",\"score\":" ++ fmtLu view.score.toNat ++ ascii ",\"role\":" ++
    fmtLu beaconRole.toNat ++
    (if view.positioned then
      ascii ",\"lat\":" ++ fmtF7 view.latE7 ++ ascii ",\"lon\":" ++ fmtF7 view.lonE7
    else []) ++ ascii "\x7d\r\n"⟩

/-- Step 4a for a beacon: the callsign, as far as a NUL, and the role. -/
def handleBeacon (frame : RfRxFrame) (hdr : RivrPktHdr) (pl : Option (List UInt8))
    (view : BeaconView) : List Record :=
  let (callsign, beaconRole) : List UInt8 × UInt8 := match pl with
    | none => ([], 0)
    | some payload =>
      if hdr.payloadLen ≥ beaconPayloadLen then
        (cstr (payload.take beaconCallsignMax), payload.getD (beaconCallsignMax + 1) 0)
      else ([], 0)
  [bcnRecord fmtF7 frame hdr callsign beaconRole view]

/-! ### Received frames -/

/-- The records of a service handler. -/
def AppEvent.records (myNodeId : UInt32) (rssiDbm : Int16) (nowMs : UInt32) (store : MailboxStore) :
    AppEvent → List Record
  | .chatMessage hdr payload => handleChatMessage hdr payload rssiDbm
  | .mailboxStore hdr payload => (handleMailboxStore myNodeId hdr payload nowMs store).2
  | _ => []

/-- The records that are printed for a received frame: that of a beacon that reaches the handlers,
and those of the services. -/
def printedRecords (node : RadioNode cfg) (env : RxVerdicts) (frame : RfRxFrame) (nowMs : UInt32)
    (view : BeaconView) (store : MailboxStore) : List Record :=
  (match node.accepted env frame nowMs with
    | some (hdr, pl) => if hdr.pktType = pktBeacon then handleBeacon fmtF7 frame hdr pl view else []
    | none => []) ++
  (rfRxFrame node env frame nowMs).2.flatMap (AppEvent.records node.myNodeId frame.rssiDbm nowMs store)

end

/-! ### Formats are safe -/

/-- A digit of a decimal number. -/
theorem isDigit_digitChar {d : ℕ} (h : d < 10) :
    Json.IsDigit (UInt8.ofNat d.digitChar.toNat) ∧ (UInt8.ofNat d.digitChar.toNat = 48 → d = 0) :=
  (by decide : ∀ d < 10, Json.IsDigit (UInt8.ofNat (Nat.digitChar d).toNat) ∧
    (UInt8.ofNat (Nat.digitChar d).toNat = 48 → d = 0)) d h

/-- A decimal number starts with a zero only if it is zero; by strong induction along the digits. -/
theorem fmtLu_spec (n : ℕ) : ∃ d ds, fmtLu n = d :: ds ∧ Json.IsDigit d ∧
    (∀ b ∈ ds, Json.IsDigit b) ∧ (d = 48 → n = 0) := by
  induction n using Nat.strong_induction_on with
  | _ n ih =>
    by_cases hlt : n < 10
    · obtain ⟨hdigit, hzero⟩ := isDigit_digitChar hlt
      refine ⟨_, [], ?_, hdigit, fun b hb => absurd hb List.not_mem_nil, hzero⟩
      rw [fmtLu, Nat.toDigits_of_lt_base hlt]
      rfl
    · have hle : 10 ≤ n := Nat.not_lt.mp hlt
      obtain ⟨d, ds, heq, hd, hds, hzero⟩ := ih (n / 10) (by omega)
      refine ⟨d, ds ++ [UInt8.ofNat (n % 10).digitChar.toNat], ?_, hd, fun b hb => ?_, fun h48 => ?_⟩
      · rw [fmtLu] at heq ⊢
        rw [Nat.toDigits_of_base_le (by decide) hle, List.map_append, heq]
        rfl
      · rcases List.mem_append.mp hb with hb | hb
        · exact hds b hb
        · rw [List.mem_singleton.mp hb]
          exact (isDigit_digitChar (Nat.mod_lt _ (by decide))).1
      · have := hzero h48
        omega

theorem intPart_fmtLu (n : ℕ) : Json.IntPart (fmtLu n) := by
  by_cases hzero : n = 0
  · rw [hzero]
    exact .zero
  · obtain ⟨d, ds, heq, hd, hds, hfirst⟩ := fmtLu_spec n
    rw [heq]
    exact .digits hd (fun h48 => hzero (hfirst h48)) hds

/-- Integers are printed as numbers. -/
theorem number_fmtLu (n : ℕ) : Json.Number (fmtLu n) := by
  have hnumber := Json.Number.mk (.inl rfl) (intPart_fmtLu n) .none .none
  rwa [List.nil_append, List.append_nil, List.append_nil] at hnumber

theorem number_fmtD (z : ℤ) : Json.Number (fmtD z) := by
  rw [fmtD]
  split_ifs
  · have hnumber := Json.Number.mk (.inr rfl) (intPart_fmtLu z.natAbs) .none .none
    rwa [List.append_nil, List.append_nil] at hnumber
  · exact number_fmtLu _

/-- Hexadecimal numbers are printed in characters that need no escape. -/
theorem fmt08lx_spec (upper : Bool) (v : UInt32) :
    ∀ b ∈ fmt08lx upper v, 0x20 ≤ b.toNat ∧ b.toNat < 0x80 ∧ b ≠ 34 ∧ b ≠ 92 := by
  intro b hb
  obtain ⟨i, -, rfl⟩ := List.mem_map.mp hb
  have hlt : v.toNat / 16 ^ (7 - i) % 16 < 16 := Nat.mod_lt _ (by decide)
  exact (by decide : ∀ upper, ∀ n < 16, 0x20 ≤ (hexDigit upper n).toNat ∧
    (hexDigit upper n).toNat < 0x80 ∧ hexDigit upper n ≠ 34 ∧ hexDigit upper n ≠ 92) upper _ hlt

/-- A chunk of the loop of `svc_json_text` keeps the string well formed. -/
theorem chars_svcJsonTextLoop (maxlen : ℕ) (src : List UInt8) {dst : List UInt8}
    (h : Json.Chars dst) : Json.Chars (svcJsonTextLoop maxlen dst src) := by
  induction src generalizing dst with
  | nil => exact h
  | cons c src ih =>
    have hescape : ∀ b ∈ Json.escapes, Json.Chars (dst ++ [92, b]) := fun b hb =>
      h.append (.escape hb .nil)
    rw [svcJsonTextLoop]
    split_ifs with hroom hquote hfits hback hfits' hother
    · exact ih (hescape 34 (by decide))
    · exact ih h
    · exact ih (hescape 92 (by decide))
    · exact ih h
    · exact ih (h.append (Json.chars_singleton (by decide) (by decide) (by decide) (by decide)))
    · obtain ⟨hlow, hhigh⟩ := not_or.mp hother
      have hle := UInt8.le_iff_toNat_le.mp (UInt8.not_lt.mp hlow)
      have hlt := UInt8.le_iff_toNat_le.mp (UInt8.not_lt.mp hhigh)
      exact ih (h.append (Json.chars_singleton hle (Nat.lt_of_le_of_lt hlt (by decide)) hquote hback))
    · exact h

/-- **Texts of messages** are made strings, whatever their bytes are. -/
theorem chars_svcJsonText (src : List UInt8) (maxlen : ℕ) : Json.Chars (svcJsonText src maxlen) :=
  chars_svcJsonTextLoop maxlen src .nil

/-! ### Records of messages -/

/-- A value without control characters. -/
def SafeValue (kind : Json.Kind) (w : List UInt8) : Prop :=
  Json.Value kind w ∧ ∀ b ∈ w, 0x20 ≤ b.toNat

theorem safeValue_string {w : List UInt8} (h : Json.Chars w) :
    SafeValue .string (34 :: w ++ [34]) := by
  refine ⟨.string h, ?_⟩
  simp only [List.cons_append, List.forall_mem_cons, List.forall_mem_append]
  exact ⟨by decide, h.le, by decide, fun b hb => absurd hb List.not_mem_nil⟩

theorem safeValue_number {w : List UInt8} (h : Json.Number w) : SafeValue .number w :=
  ⟨.number h, fun b hb => (h.ne b hb).1⟩

/-- An identifier as the records print it. -/
theorem safeValue_hex (upper : Bool) (v : UInt32) :
    SafeValue .string (34 :: (ascii "0x" ++ fmt08lx upper v) ++ [34]) := by
  refine safeValue_string (Json.Chars.append ?_ (Json.chars_of_forall (fmt08lx_spec upper v)))
  exact Json.chars_of_forall (by decide)

/-- The names of the members need no escape. -/
theorem fields_safe (kind : RecordKind) : ∀ f ∈ kind.fields, f.2.isScalar = true ∧
    ∀ b ∈ f.1, 0x20 ≤ b.toNat ∧ b.toNat < 0x80 ∧ b ≠ 34 ∧ b ≠ 92 := by
  match kind with
  | .cht | .mail | .bcn true | .bcn false => decide

/-- A line of members that are safe is a well-formed record. -/
theorem wellFormed_of_members {r : Record} {ms : List Json.Member} (hne : ms ≠ [])
    (hfields : r.kind.fields = ms.map fun m => (m.1, m.2.1))
    (hline : r.line = r.kind.mark ++ (123 :: Json.membersText ms ++ [125]) ++ [13, 10])
    (hvalues : ∀ m ∈ ms, SafeValue m.2.1 m.2.2) : r.WellFormed := by
  have hkeys : ∀ m ∈ ms, ∀ b ∈ m.1, 0x20 ≤ b.toNat ∧ b.toNat < 0x80 ∧ b ≠ 34 ∧ b ≠ 92 :=
    fun m hm => (fields_safe r.kind (m.1, m.2.1) (hfields ▸ List.mem_map_of_mem hm)).2
  refine ⟨_, hline, fun b hb => ?_, ?_⟩
  · have hmembers := Json.forall_membersText (P := fun b => 0x20 ≤ b.toNat) (by decide) (by decide)
      (by decide) fun m hm => ⟨fun b hb => (hkeys m hm b hb).1, (hvalues m hm).2⟩
    have hle : 0x20 ≤ b.toNat := by
      rcases List.mem_append.mp hb with hb | hb
      · rcases List.mem_cons.mp hb with rfl | hb
        · decide
        · exact hmembers b hb
      · rw [List.mem_singleton.mp hb]
        decide
    constructor
    · rintro rfl
      exact absurd hle (by decide)
    · rintro rfl
      exact absurd hle (by decide)
  · rw [hfields]
    exact Json.object_membersText hne fun m hm =>
      ⟨Json.chars_of_forall (hkeys m hm), (hvalues m hm).1⟩

/-- A chat message gives a well-formed record, whatever its bytes are. -/
theorem chtRecord_wellFormed (hdr : RivrPktHdr) (chanId : UInt16) (text : List UInt8)
    (rssiDbm : Int16) : (chtRecord hdr chanId text rssiDbm).WellFormed := by
  have hfields : (chtRecord hdr chanId text rssiDbm).kind.fields =
      ([(ascii "src", .string, 34 :: (ascii "0x" ++ fmt08lx false hdr.srcId) ++ [34]),
        (ascii "dst", .string, 34 :: (ascii "0x" ++ fmt08lx false hdr.dstId) ++ [34]),
        (ascii "chan", .number, fmtLu chanId.toNat), (ascii "rssi", .number, fmtD rssiDbm.toInt),
        (ascii "len", .number, fmtLu text.length),
        (ascii "text", .string, 34 :: svcJsonText text (rivrPktMaxPayload.toNat + 1) ++ [34])] :
          List Json.Member).map fun m => (m.1, m.2.1) := rfl
  refine wellFormed_of_members (List.cons_ne_nil _ _) hfields ?_ ?_
  · simp only [chtRecord, RecordKind.mark, Json.membersText, List.append_assoc, List.cons_append,
      List.nil_append]
    rfl
  · simp only [List.forall_mem_cons]
    exact ⟨safeValue_hex _ _, safeValue_hex _ _, safeValue_number (number_fmtLu _),
      safeValue_number (number_fmtD _), safeValue_number (number_fmtLu _),
      safeValue_string (chars_svcJsonText _ _), fun m hm => absurd hm List.not_mem_nil⟩

/-- And so does a mail. -/
theorem mailRecord_wellFormed (hdr : RivrPktHdr) (recipientId : UInt32) (msgSeq : UInt16)
    (flags : UInt8) (forUs : Bool) (text : List UInt8) :
    (mailRecord hdr recipientId msgSeq flags forUs text).WellFormed := by
  have hfields : (mailRecord hdr recipientId msgSeq flags forUs text).kind.fields =
      ([(ascii "src", .string, 34 :: (ascii "0x" ++ fmt08lx false hdr.srcId) ++ [34]),
        (ascii "to", .string, 34 :: (ascii "0x" ++ fmt08lx false recipientId) ++ [34]),
        (ascii "seq", .number, fmtLu msgSeq.toNat), (ascii "flags", .number, fmtLu flags.toNat),
        (ascii "stored", .boolean, if forUs then ascii "true" else ascii "false"),
        (ascii "text", .string, 34 :: svcJsonText text (svcMailboxMaxText + 1) ++ [34])] :
          List Json.Member).map fun m => (m.1, m.2.1) := rfl
  have hstored : SafeValue .boolean (if forUs then ascii "true" else ascii "false") := by
    cases forUs with
    | true => exact ⟨.tt, by decide⟩
    | false => exact ⟨.ff, by decide⟩
  refine wellFormed_of_members (List.cons_ne_nil _ _) hfields ?_ ?_
  · simp only [mailRecord, RecordKind.mark, Json.membersText, List.append_assoc, List.cons_append,
      List.nil_append]
    rfl
  · simp only [List.forall_mem_cons]
    exact ⟨safeValue_hex _ _, safeValue_hex _ _, safeValue_number (number_fmtLu _),
      safeValue_number (number_fmtLu _), hstored, safeValue_string (chars_svcJsonText _ _),
      fun m hm => absurd hm List.not_mem_nil⟩

/-! ### Records of beacons -/

section

variable {fmtF7 : Int32 → List UInt8}

/-- The members after the callsign. -/
def bcnNumbers (fmtF7 : Int32 → List UInt8) (frame : RfRxFrame) (hdr : RivrPktHdr)
    (beaconRole : UInt8) (view : BeaconView) : List Json.Member :=
  [(ascii "rssi", .number, fmtD frame.rssiDbm.toInt), (ascii "snr", .number, fmtD frame.snrDb.toInt),
    (ascii "hop", .number, fmtLu hdr.hop.toNat), (ascii "score", .number, fmtLu view.score.toNat),
    (ascii "role", .number, fmtLu beaconRole.toNat)] ++
    if view.positioned then
      [(ascii "lat", .number, fmtF7 view.latE7), (ascii "lon", .number, fmtF7 view.lonE7)]
    else []

/-- The members of a beacon's record. -/
def bcnMembers (fmtF7 : Int32 → List UInt8) (frame : RfRxFrame) (hdr : RivrPktHdr)
    (callsign : List UInt8) (beaconRole : UInt8) (view : BeaconView) : List Json.Member :=
  (ascii "src", .string, 34 :: (ascii "0x" ++ fmt08lx true hdr.srcId) ++ [34]) ::
    (ascii "cs", .string, 34 :: callsign ++ [34]) :: bcnNumbers fmtF7 frame hdr beaconRole view

theorem number_of_mem_bcnNumbers (hfmt : ∀ v, Json.Number (fmtF7 v)) {frame : RfRxFrame}
    {hdr : RivrPktHdr} {beaconRole : UInt8} {view : BeaconView} {m : Json.Member}
    (hm : m ∈ bcnNumbers fmtF7 frame hdr beaconRole view) :
    m.2.1 = .number ∧ Json.Number m.2.2 := by
  rw [bcnNumbers, List.mem_append] at hm
  rcases hm with hm | hm
  · simp only [List.mem_cons, List.not_mem_nil, or_false] at hm
    rcases hm with rfl | rfl | rfl | rfl | rfl
    exacts [⟨rfl, number_fmtD _⟩, ⟨rfl, number_fmtD _⟩, ⟨rfl, number_fmtLu _⟩,
      ⟨rfl, number_fmtLu _⟩, ⟨rfl, number_fmtLu _⟩]
  · split_ifs at hm
    · simp only [List.mem_cons, List.not_mem_nil, or_false] at hm
      rcases hm with rfl | rfl
      exacts [⟨rfl, hfmt _⟩, ⟨rfl, hfmt _⟩]
    · exact absurd hm List.not_mem_nil

variable (frame : RfRxFrame) (hdr : RivrPktHdr) (callsign : List UInt8) (beaconRole : UInt8)
  (view : BeaconView)

theorem bcnRecord_line : (bcnRecord fmtF7 frame hdr callsign beaconRole view).line =
    ascii "@BCN " ++ (123 :: Json.membersText
      (bcnMembers fmtF7 frame hdr callsign beaconRole view) ++ [125]) ++ [13, 10] := by
  rw [bcnRecord, bcnMembers, bcnNumbers]
  cases view.positioned with
  | true =>
    simp only [if_pos, Json.membersText, List.append_assoc, List.cons_append, List.nil_append]
    rfl
  | false =>
    simp only [Bool.false_eq_true, if_false, Json.membersText, List.append_assoc, List.cons_append,
      List.nil_append]
    rfl

theorem bcnRecord_fields : (bcnRecord fmtF7 frame hdr callsign beaconRole view).kind.fields =
    (bcnMembers fmtF7 frame hdr callsign beaconRole view).map fun m => (m.1, m.2.1) := by
  rw [bcnRecord, bcnMembers, bcnNumbers]
  cases view.positioned <;> rfl

/-- The object of a beacon, around its callsign. -/
theorem bcnMembers_text : 123 :: Json.membersText
      (bcnMembers fmtF7 frame hdr callsign beaconRole view) ++ [125] =
    (ascii "\x7b\"src\":\"0x" ++ fmt08lx true hdr.srcId ++ ascii "\",\"cs\":") ++ 34 :: callsign ++
      34 :: (44 :: Json.membersText (bcnNumbers fmtF7 frame hdr beaconRole view) ++ [125]) := by
  rw [bcnMembers, bcnNumbers]
  simp only [Json.membersText, List.append_assoc, List.cons_append, List.nil_append]
  rfl

/-- The numbers and their names have neither quotes nor backslashes. -/
theorem ne_of_mem_bcnNumbers (hfmt : ∀ v, Json.Number (fmtF7 v)) {m : Json.Member}
    (hm : m ∈ bcnNumbers fmtF7 frame hdr beaconRole view) :
    (∀ b ∈ m.1, b ≠ 34 ∧ b ≠ 92) ∧ ∀ b ∈ m.2.2, b ≠ 34 ∧ b ≠ 92 := by
  have hsafe := fields_safe (bcnRecord fmtF7 frame hdr [] beaconRole view).kind (m.1, m.2.1)
  rw [bcnRecord_fields] at hsafe
  have hmem : m ∈ bcnMembers fmtF7 frame hdr [] beaconRole view :=
    List.mem_cons_of_mem _ (List.mem_cons_of_mem _ hm)
  exact ⟨fun b hb => ((hsafe (List.mem_map_of_mem hmem)).2 b hb).2.2,
    fun b hb => ((number_of_mem_bcnNumbers hfmt hm).2.ne b hb).2⟩

theorem stringCount_bcnMembers (hfmt : ∀ v, Json.Number (fmtF7 v)) :
    Json.stringCount ((bcnMembers fmtF7 frame hdr callsign beaconRole view).map fun m =>
      (m.1, m.2.1)) = 4 + (bcnNumbers fmtF7 frame hdr beaconRole view).length := by
  have hnumbers : Json.stringCount
      ((bcnNumbers fmtF7 frame hdr beaconRole view).map fun m => (m.1, m.2.1)) =
        (bcnNumbers fmtF7 frame hdr beaconRole view).length := by
    rw [Json.stringCount_of_forall, List.length_map]
    intro f hf
    obtain ⟨m, hm, rfl⟩ := List.mem_map.mp hf
    exact fun hstring => nomatch (number_of_mem_bcnNumbers hfmt hm).1.symm.trans hstring
  rw [Json.stringCount] at hnumbers ⊢
  rw [bcnMembers, List.map_cons, List.map_cons, List.map_cons, List.map_cons, List.sum_cons,
    List.sum_cons, hnumbers, ← Nat.add_assoc]
  rfl

/-- A callsign that was printed in a well-formed record is the contents of a string. -/
theorem chars_of_bcnRecord (hfmt : ∀ v, Json.Number (fmtF7 v))
    (h : (bcnRecord fmtF7 frame hdr callsign beaconRole view).WellFormed) : Json.Chars callsign := by
  obtain ⟨text, htext, -, hobj⟩ := h
  have hsafe := fields_safe (bcnRecord fmtF7 frame hdr callsign beaconRole view).kind
  rw [bcnRecord_fields] at hsafe hobj
  rw [bcnRecord_line] at htext
  obtain rfl := List.append_cancel_left (List.append_cancel_right htext)
  rw [bcnMembers_text] at hobj
  have hhex : ∀ b ∈ fmt08lx true hdr.srcId, b ≠ 34 ∧ b ≠ 92 := fun b hb =>
    (fmt08lx_spec true hdr.srcId b hb).2.2
  have hne := fun m hm => ne_of_mem_bcnNumbers frame hdr beaconRole view hfmt (m := m) hm
  -- the quotes before and behind the callsign are those of whole strings
  have hfront : (ascii "\x7b\"src\":\"0x" ++ fmt08lx true hdr.srcId ++
      ascii "\",\"cs\":").count 34 = 2 * 3 := by
    rw [List.count_append, List.count_append, List.count_eq_zero.mpr fun hmem =>
      (hhex _ hmem).1 rfl]
    rfl
  have hback : (44 :: Json.membersText (bcnNumbers fmtF7 frame hdr beaconRole view) ++
      [125]).count 34 = 2 * (bcnNumbers fmtF7 frame hdr beaconRole view).length := by
    rw [List.count_append, List.count_cons_of_ne (by decide), Json.count_membersText fun m hm =>
      ⟨fun b hb => ((hne m hm).1 b hb).1, fun b hb => ((hne m hm).2 b hb).1⟩]
    rfl
  obtain ⟨strings, hspelled, hc⟩ := Json.chars_of_object hobj (fun f hf => (hsafe f hf).1)
    (by
      simp only [List.forall_mem_append]
      exact ⟨⟨by decide, fun b hb => (hhex b hb).2⟩, by decide⟩)
    (by
      simp only [List.forall_mem_append, List.forall_mem_cons]
      exact ⟨⟨by decide, Json.forall_membersText (P := fun b => b ≠ 92) (by decide) (by decide)
        (by decide) fun m hm => ⟨fun b hb => ((hne m hm).1 b hb).2,
          fun b hb => ((hne m hm).2 b hb).2⟩⟩, by decide, by simp⟩)
    hfront (by
      rw [hfront, hback, stringCount_bcnMembers frame hdr callsign beaconRole view hfmt]
      omega)
  exact hspelled.chars hc

/-- **A beacon gives a well-formed record** exactly when its callsign can stand in a string. -/
theorem bcnRecord_wellFormed_iff (hfmt : ∀ v, Json.Number (fmtF7 v)) :
    (bcnRecord fmtF7 frame hdr callsign beaconRole view).WellFormed ↔ Json.Chars callsign := by
  refine ⟨chars_of_bcnRecord frame hdr callsign beaconRole view hfmt, fun h => ?_⟩
  refine wellFormed_of_members (List.cons_ne_nil _ _)
    (bcnRecord_fields frame hdr callsign beaconRole view)
    (bcnRecord_line frame hdr callsign beaconRole view) ?_
  simp only [List.forall_mem_cons]
  refine ⟨safeValue_hex _ _, safeValue_string h, fun m hm => ?_⟩
  obtain ⟨hkind, hnumber⟩ := number_of_mem_bcnNumbers hfmt hm
  rw [hkind]
  exact safeValue_number hnumber

end

/-! ### Records of received frames -/

/-- The service handlers print well-formed records only. -/
theorem AppEvent.records_wellFormed (myNodeId : UInt32) (rssiDbm : Int16) (nowMs : UInt32)
    (store : MailboxStore) (ev : AppEvent) :
    ∀ r ∈ ev.records myNodeId rssiDbm nowMs store, r.WellFormed := by
  intro r hr
  match ev with
  | .chatMessage hdr payload =>
    simp only [AppEvent.records, handleChatMessage] at hr
    split_ifs at hr
    · exact absurd hr List.not_mem_nil
    · exact absurd hr List.not_mem_nil
    · rw [List.mem_singleton.mp hr]
      exact chtRecord_wellFormed _ _ _ _
  | .mailboxStore hdr payload =>
    simp only [AppEvent.records, handleMailboxStore] at hr
    split_ifs at hr
    · exact absurd hr List.not_mem_nil
    all_goals
      rw [List.mem_singleton.mp hr]
      exact mailRecord_wellFormed _ _ _ _ _ _
  | .telemetryPublish .. | .alertEvent .. | .inject .. => exact absurd hr List.not_mem_nil

/-- **The records of a received frame** are lines of well-formed objects exactly when the frame is
no beacon that reaches the handlers, or its callsign, up to a NUL, is the contents of a JSON
string. -/
theorem records_wellFormed_iff {fmtF7 : Int32 → List UInt8} (hfmt : ∀ v, Json.Number (fmtF7 v))
    (node : RadioNode cfg) (env : RxVerdicts) (frame : RfRxFrame) (nowMs : UInt32)
    (view : BeaconView) (store : MailboxStore) :
    (∀ r ∈ printedRecords fmtF7 node env frame nowMs view store, r.WellFormed) ↔
      ∀ hdr payload, node.Accepts env frame hdr (some payload) nowMs → hdr.pktType = pktBeacon →
        beaconPayloadLen ≤ hdr.payloadLen →
          Json.Chars (cstr (payload.take beaconCallsignMax)) := by
  have hservices : ∀ r ∈ (rfRxFrame node env frame nowMs).2.flatMap
      (AppEvent.records node.myNodeId frame.rssiDbm nowMs store), r.WellFormed := by
    intro r hr
    obtain ⟨ev, -, hr⟩ := List.mem_flatMap.mp hr
    exact ev.records_wellFormed _ _ _ _ r hr
  rw [printedRecords, List.forall_mem_append]
  constructor
  · rintro ⟨hbeacon, -⟩ hdr payload hacc htype hlen
    rw [accepted_eq_some_iff.mpr hacc] at hbeacon
    simp only [if_pos htype, handleBeacon, if_pos hlen, List.forall_mem_singleton] at hbeacon
    exact (bcnRecord_wellFormed_iff _ _ _ _ _ hfmt).mp hbeacon
  · refine fun h => ⟨?_, hservices⟩
    match hacc : node.accepted env frame nowMs with
    | none => exact fun r hr => absurd hr List.not_mem_nil
    | some (hdr, pl) =>
      dsimp only
      split_ifs with htype
      · simp only [handleBeacon, List.forall_mem_singleton]
        refine (bcnRecord_wellFormed_iff _ _ _ _ _ hfmt).mpr ?_
        match pl with
        | none => exact .nil
        | some payload =>
          dsimp only
          split_ifs with hlen
          · exact h hdr payload (accepted_eq_some_iff.mp hacc) htype hlen
          · exact .nil
      · exact fun r hr => absurd hr List.not_mem_nil

/-! ### A callsign with a quote -/

/-- The exact decimals of a coordinate. -/
def fixed7 (v : Int32) : List UInt8 :=
  (if v.toInt < 0 then [45] else []) ++ fmtLu (v.toInt.natAbs / 10 ^ 7) ++
    46 :: (List.range 7).map fun i =>
      UInt8.ofNat (Nat.digitChar (v.toInt.natAbs / 10 ^ (6 - i) % 10)).toNat

theorem number_fixed7 (v : Int32) : Json.Number (fixed7 v) := by
  have hfrac : Json.FracPart (46 :: (List.range 7).map fun i =>
      UInt8.ofNat (Nat.digitChar (v.toInt.natAbs / 10 ^ (6 - i) % 10)).toNat) := by
    refine .digits (List.cons_ne_nil _ _) fun b hb => ?_
    obtain ⟨i, -, rfl⟩ := List.mem_map.mp hb
    exact (isDigit_digitChar (Nat.mod_lt _ (by decide))).1
  have hsign : (if v.toInt < 0 then [45] else []) = ([] : List UInt8) ∨
      (if v.toInt < 0 then [45] else []) = ([45] : List UInt8) := by
    split_ifs
    · exact .inr rfl
    · exact .inl rfl
  have hnumber := Json.Number.mk hsign (intPart_fmtLu (v.toInt.natAbs / 10 ^ 7)) hfrac .none
  rwa [List.append_nil] at hnumber

/-- The header of a beacon. -/
def sampleBeaconHdr : RivrPktHdr := { sampleChatHdr with netId := 0, pktType := pktBeacon }

/-- A beacon with the callsign and the role of a client. -/
def beaconFrame (callsign : String) : RfRxFrame :=
  ⟨wireFrame sampleBeaconHdr
    (ascii callsign ++ List.replicate (11 - callsign.length) 0 ++ [1]), -60, 8, 0⟩

/-- Nothing is known of the position of the sender. -/
def unpositioned : BeaconView := ⟨90, Int32.minValue, Int32.minValue⟩

theorem records_wellFormed_iff_sample : (∀ v, Json.Number (fixed7 v)) ∧
    ((∀ r ∈ printedRecords fixed7 freshClient ⟨true, true, 0⟩ (beaconFrame "PA3ABC") 1000 unpositioned
        .empty, r.WellFormed) ↔
      ∀ hdr payload, freshClient.Accepts ⟨true, true, 0⟩ (beaconFrame "PA3ABC") hdr (some payload)
          1000 → hdr.pktType = pktBeacon → beaconPayloadLen ≤ hdr.payloadLen →
            Json.Chars (cstr (payload.take beaconCallsignMax))) :=
  ⟨number_fixed7, records_wellFormed_iff number_fixed7 _ _ _ _ _ _⟩

/-- The record ends its string early. -/
theorem not_records_wellFormed : ¬∀ (fmtF7 : Int32 → List UInt8), (∀ v, Json.Number (fmtF7 v)) →
    ∀ (cfg : BuildConfig) (node : RadioNode cfg) (env : RxVerdicts) (frame : RfRxFrame)
      (nowMs : UInt32) (view : BeaconView) (store : MailboxStore),
      ∀ r ∈ printedRecords fmtF7 node env frame nowMs view store, r.WellFormed := by
  intro h
  have hrecords := h fixed7 number_fixed7 clientBuild freshClient ⟨true, true, 0⟩
    (beaconFrame "N0\"CALL") 1000 unpositioned .empty
  have hacc : freshClient.accepted ⟨true, true, 0⟩ (beaconFrame "N0\"CALL") 1000 =
      some ({ sampleBeaconHdr with payloadLen := 12, magic := rivrMagic, version := rivrProtoVer },
        some (ascii "N0\"CALL" ++ [0, 0, 0, 0, 1])) := by decide +kernel
  rw [printedRecords, hacc, List.forall_mem_append] at hrecords
  have hrecord := hrecords.1
  simp only [handleBeacon] at hrecord
  have hchars := (bcnRecord_wellFormed_iff _ _ _ _ _ number_fixed7).mp
    (hrecord _ (List.mem_singleton_self _))
  -- a scanner leaves the string at the quote
  exact absurd (congrArg Json.Scan.mode (hchars.run_inside [] [])) (by decide)

end Rivr
