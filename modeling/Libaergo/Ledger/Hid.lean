import Libaergo.Ledger.Apdu
import Libaergo.Ledger.Layer
import Libaergo.Lib.Overlay

/-!
# The transport to the Ledger (`ledger/dongleCommHidapi.c`)

`sendApduHidapi` has a buffer of 400 bytes: it writes the packets of a command from it, and then reads packets into
it, one behind the other, until they are a whole response, the last two bytes of which are the status word.  How many
packets there are is up to the device, and the loop does not compare their place with the end of the buffer, nor with
the end of the range of its `int`.

What hidapi and the device behind it do is a parameter, a state with what a write and a read make of it.  A read
leaves 64 bytes at most in the buffer, and none when its time is over: `hid_read_timeout` returns zero then, which is
no failure to the code.
-/

namespace Libaergo.Ledger

open Lib

/-! ### The functions -/

def defaultLedgerChannel : ℕ := 0x0101

def ledgerHidPacketSize : ℕ := 64

def maxBlock : ℕ := 64

/-- `sizeof(buffer)` -/
def bufferSize : ℕ := 400

lemma minusOne_neg : (-1 : ℤ) < 0 := by decide

/-- What `hid_read_timeout` comes to: a failure, or the bytes it leaves in the buffer. -/
inductive HidRead where
  | failed (result : ℤ) (h : result < 0)
  | bytes (bs : Bytes) (h : bs.length ≤ maxBlock)

/-- The device: what `hid_write` and `hid_read_timeout` make of its state, and what they return. -/
structure Hid (σ : Type) where
  write : σ → Bytes → σ × ℤ
  read : σ → σ × HidRead

section Send

variable {σ : Type} (H : Hid σ)

/-- `while (remaining > 0)`: the blocks of the packets are written, up to the first failure, the result of which is
returned. -/
def writeBlocks (s : σ) (data : Bytes) : σ × Option {result : ℤ // result < 0} :=
  if _h : data = [] then (s, none)
  else
    let (s, result) := H.write s (data.take maxBlock)
    if h : result < 0 then (s, some ⟨result, h⟩) else writeBlocks s (data.drop maxBlock)
termination_by data.length
decreasing_by
  have hpos := List.length_pos_of_ne_nil _h
  rw [List.length_drop, maxBlock]
  omega

/-- Behind the loop: the response without its status word, and the status word.  There is none of them in a response
of one byte, where the code reads in front of `out`. -/
def takeResponse (result : ℕ) (out : Bytes) : Option Reply :=
  if result = 1 then none
  else
    some (.response (out.take (result - 2))
      (UInt16.ofNat ((out.getD (result - 2) 0).toNat * 256 + (out.getD (result - 1) 0).toNat)))

/-- What a read has brought to this place ends behind the buffer, or the next place is behind the range of an
`int`. -/
def Outside (offset : ℕ) (bs : Bytes) : Prop :=
  bs ≠ [] ∧ bufferSize < offset + bs.length ∨ 2 ^ 31 ≤ offset + maxBlock

instance (offset : ℕ) (bs : Bytes) : Decidable (Outside offset bs) := by
  unfold Outside
  infer_instance

/-- `while (1)`; `none` is an access outside the arrays, or an overflow of `offset`. -/
def readBlocks (outLength : ℕ) (s : σ) (buffer : Bytes) (offset : ℕ) : σ × Option Reply :=
  -- with room for 352 bytes at most, only the header is read again behind the end of the buffer
  match unwrapReponseAPDU defaultLedgerChannel ledgerHidPacketSize (buffer.take offset) outLength with
  | none => (s, none)
  | some (result, out) =>
    if h : result < 0 then (s, some (.failed result h))
    else if result ≠ 0 then (s, takeResponse result.toNat out)
    else
      match H.read s with
      | (s, .failed result h) => (s, some (.failed result h))
      | (s, .bytes bs _) =>
        if _h : Outside offset bs then (s, none)
        else readBlocks outLength s (writeAt buffer offset bs) (offset + maxBlock)
termination_by 2 ^ 31 - offset
decreasing_by
  have hlt := (not_or.mp _h).2
  unfold maxBlock at *
  omega

/-- **`sendApduHidapi`**, where `buffer` is what its array holds before: the state of the device behind it, and what
it returns; `none` is an access outside the arrays, or an overflow of `offset`. -/
def sendApduHidapi (s : σ) (apdu : Bytes) (outLength : ℕ) (buffer : Bytes) : σ × Option Reply :=
  match wrapCommandAPDU defaultLedgerChannel ledgerHidPacketSize apdu bufferSize with
  | .error _ => (s, some (.failed (-1) minusOne_neg))
  | .ok data =>
    match writeBlocks H s data with
    | (s, some ⟨result, h⟩) => (s, some (.failed result h))
    | (s, none) =>
      match H.read s with
      | (s, .failed result h) => (s, some (.failed result h))
      | (s, .bytes bs _) => readBlocks H outLength s (writeAt (overlay buffer data) 0 bs) maxBlock

def Hid.after : σ → ℕ → σ
  | s, 0 => s
  | s, n + 1 => Hid.after (H.read s).1 n

def Hid.nth (s : σ) (n : ℕ) : HidRead := (H.read (H.after s n)).2

end Send

/-! ### The buffer -/

/-- The read was no failure. -/
def HidRead.Some (r : HidRead) : Prop := ∃ bs h, r = .bytes bs h

section Buffer

variable {σ : Type} {H : Hid σ} {s : σ} {outLength offset j : ℕ} {buffer data out : Bytes}

lemma usesWholePackets (hj : maxBlock * j ≤ buffer.length) :
    ledgerHidPacketSize ∣ (buffer.take (maxBlock * j)).length := by
  rw [List.length_take, Nat.min_eq_left hj]
  exact Nat.dvd_mul_right 64 j

lemma readBlocks_done {result : ℕ} (hpos : 0 < result)
    (h : unwrapReponseAPDU defaultLedgerChannel ledgerHidPacketSize (buffer.take offset) outLength =
      some ((result : ℤ), out)) :
    readBlocks H outLength s buffer offset = (s, takeResponse result out) := by
  rw [readBlocks, h]
  dsimp only
  rw [dif_neg (by omega), if_pos (by omega), Int.toNat_natCast]

lemma readBlocks_outside
    (h : unwrapReponseAPDU defaultLedgerChannel ledgerHidPacketSize (buffer.take offset) outLength = some (0, out))
    {bs : Bytes} {hlen : bs.length ≤ maxBlock} (hread : (H.read s).2 = .bytes bs hlen) (hout : Outside offset bs) :
    readBlocks H outLength s buffer offset = ((H.read s).1, none) := by
  rw [readBlocks, h]
  dsimp only
  rw [dif_neg (by decide), if_neg (by decide), ← Prod.mk.eta (p := H.read s), hread]
  exact dif_pos hout

lemma readBlocks_failed
    (h : unwrapReponseAPDU defaultLedgerChannel ledgerHidPacketSize (buffer.take offset) outLength = some (0, out))
    {result : ℤ} {hneg : result < 0} (hread : (H.read s).2 = .failed result hneg) :
    readBlocks H outLength s buffer offset = ((H.read s).1, some (.failed result hneg)) := by
  rw [readBlocks, h]
  dsimp only
  rw [dif_neg (by decide), if_neg (by decide), ← Prod.mk.eta (p := H.read s), hread]

lemma readBlocks_refused
    (h : unwrapReponseAPDU defaultLedgerChannel ledgerHidPacketSize (buffer.take offset) outLength = some (-1, out)) :
    readBlocks H outLength s buffer offset = (s, some (.failed (-1) minusOne_neg)) := by
  rw [readBlocks, h]
  rfl

lemma readBlocks_next
    (h : unwrapReponseAPDU defaultLedgerChannel ledgerHidPacketSize (buffer.take offset) outLength = some (0, out))
    {bs : Bytes} {hlen : bs.length ≤ maxBlock} (hread : (H.read s).2 = .bytes bs hlen) (hin : ¬ Outside offset bs) :
    readBlocks H outLength s buffer offset =
      readBlocks H outLength (H.read s).1 (writeAt buffer offset bs) (offset + maxBlock) := by
  rw [readBlocks, h]
  dsimp only
  rw [dif_neg (by decide), if_neg (by decide), ← Prod.mk.eta (p := H.read s), hread]
  exact dif_neg hin

lemma not_outside (hroom : offset + maxBlock ≤ bufferSize) {bs : Bytes} (hlen : bs.length ≤ maxBlock) :
    ¬ Outside offset bs := by
  unfold Outside
  unfold maxBlock bufferSize at *
  omega

lemma take_writeAt {n : ℕ} (hn : n ≤ offset) (hle : offset ≤ buffer.length) (bs : Bytes) :
    (writeAt buffer offset bs).take n = buffer.take n := by
  unfold writeAt
  rw [List.take_append_of_le_length (by rw [List.length_take]; omega), List.take_take, Nat.min_eq_left hn]

lemma take_writeAt_add (hle : offset ≤ buffer.length) (bs : Bytes) :
    (writeAt buffer offset bs).take (offset + bs.length) = buffer.take offset ++ bs := by
  have hlen : offset + bs.length = (buffer.take offset ++ bs).length := by
    rw [List.length_append, List.length_take, Nat.min_eq_left hle]
  unfold writeAt
  rw [← List.append_assoc, hlen, List.take_left]

/-- The first packet in the buffer declares a response of this length. -/
def Declares (buffer : Bytes) (n : ℕ) : Prop := packetHeader defaultLedgerChannel 0 ++ lengthBytes n <+: buffer

lemma declares_congr {buffer' : Bytes} {n : ℕ} (h : buffer.take 64 = buffer'.take 64) :
    Declares buffer n ↔ Declares buffer' n := by
  have htake : ∀ b : Bytes, Declares b n ↔ packetHeader defaultLedgerChannel 0 ++ lengthBytes n <+: b.take 64 := by
    intro b
    rw [List.prefix_take_iff]
    exact (and_iff_left (by rw [List.length_append, packetHeader_length, lengthBytes_length]; decide)).symm
  rw [htake, htake, h]

lemma unwrap_declared (hbuffer : buffer.length = bufferSize) (hj : 1 ≤ j) {n : ℕ} (hn : n ≤ 1)
    (hroom : n ≤ outLength) (h : Declares buffer n) :
    ∃ out, unwrapReponseAPDU defaultLedgerChannel ledgerHidPacketSize (buffer.take (maxBlock * j)) outLength =
      some ((n : ℤ), out) := by
  unfold bufferSize at hbuffer
  obtain ⟨rest, rfl⟩ := h
  rw [List.append_assoc, List.length_append, packetHeader_length, List.length_append, lengthBytes_length] at hbuffer
  have htake : (packetHeader defaultLedgerChannel 0 ++ lengthBytes n ++ rest).take (maxBlock * j) =
      packetHeader defaultLedgerChannel 0 ++ (lengthBytes n ++ rest.take (maxBlock * j - 7)) := by
    have hseven : maxBlock * j = (packetHeader defaultLedgerChannel 0 ++ lengthBytes n).length + (maxBlock * j - 7) := by
      rw [List.length_append, packetHeader_length, lengthBytes_length, maxBlock]
      omega
    rw [hseven, List.take_length_add_append, ← hseven, List.append_assoc]
  have hlen : 57 ≤ (rest.take (maxBlock * j - 7)).length := by
    rw [List.length_take, maxBlock]
    omega
  rw [htake, unwrapReponseAPDU_header (by decide) (by decide) (by omega) hroom (by omega), if_neg (by omega),
    unwrapBlocks_full]
  · exact ⟨_, rfl⟩
  · rw [List.length_take, ledgerHidPacketSize]
    omega

lemma writeAt_nil (memory : Bytes) (offset : ℕ) : writeAt memory offset [] = memory := by
  unfold writeAt
  rw [List.nil_append, List.length_nil, Nat.add_zero, List.take_append_drop]

/-- A read that stays inside leaves the buffer its size and its first packet. -/
lemma declares_writeAt (hbuffer : buffer.length = bufferSize) (hj : 1 ≤ j) {bs : Bytes}
    (hin : ¬ Outside (maxBlock * j) bs) {n : ℕ} (h : Declares buffer n) :
    (writeAt buffer (maxBlock * j) bs).length = bufferSize ∧ Declares (writeAt buffer (maxBlock * j) bs) n := by
  by_cases hnil : bs = []
  · rw [hnil, writeAt_nil]
    exact ⟨hbuffer, h⟩
  · have hroom : maxBlock * j + bs.length ≤ buffer.length := by
      rw [hbuffer]
      exact not_lt.mp fun hlt => hin (.inl ⟨hnil, hlt⟩)
    have hfirst : 64 ≤ maxBlock * j := by
      unfold maxBlock
      omega
    refine ⟨(writeAt_length hroom).trans hbuffer, ?_⟩
    exact (declares_congr (take_writeAt hfirst ((Nat.le_add_right _ _).trans hroom) bs)).mpr h

/-- A read is outside, and none before it has failed. -/
def Hid.Overruns (H : Hid σ) (s : σ) (offset : ℕ) : Prop :=
  ∃ n, (∀ i < n, (H.nth s i).Some) ∧ ∃ bs h, H.nth s n = .bytes bs h ∧ Outside (offset + maxBlock * n) bs

lemma overruns_iff : H.Overruns s offset ↔ ∃ bs h, (H.read s).2 = .bytes bs h ∧
    (Outside offset bs ∨ H.Overruns (H.read s).1 (offset + maxBlock)) := by
  have hsum : ∀ n, offset + maxBlock * (n + 1) = offset + maxBlock + maxBlock * n := fun n => by ring
  constructor
  · rintro ⟨n, hall, bs, hlen, hread, hout⟩
    cases n with
    | zero => exact ⟨bs, hlen, hread, .inl hout⟩
    | succ n =>
      obtain ⟨first, hfirst, hread₀⟩ := hall 0 (Nat.succ_pos n)
      rw [hsum] at hout
      exact ⟨first, hfirst, hread₀, .inr ⟨n, fun i hi => hall (i + 1) (Nat.succ_lt_succ hi), bs, hlen, hread, hout⟩⟩
  · rintro ⟨bs, hlen, hread, hout | ⟨n, hall, bs', hlen', hread', hout⟩⟩
    · exact ⟨0, fun i hi => absurd hi (Nat.not_lt_zero i), bs, hlen, hread, hout⟩
    · refine ⟨n + 1, fun i hi => ?_, bs', hlen', hread', (hsum n).symm ▸ hout⟩
      cases i with
      | zero => exact ⟨bs, hlen, hread⟩
      | succ i => exact hall i (Nat.lt_of_succ_lt_succ hi)

/-- **Where nothing is declared, packets are read until one is outside**, or a read fails. -/
lemma readBlocks_nothing (hbuffer : buffer.length = bufferSize) (hj : 1 ≤ j) (hlt : maxBlock * j < 2 ^ 31)
    (h : Declares buffer 0) :
    (readBlocks H outLength s buffer (maxBlock * j)).2 = none ↔ H.Overruns s (maxBlock * j) := by
  generalize hm : 2 ^ 31 - maxBlock * j = m
  induction m using Nat.strong_induction_on generalizing j s buffer with
  | _ m ih =>
    obtain ⟨out, hunwrap⟩ := unwrap_declared hbuffer hj (Nat.zero_le 1) (Nat.zero_le outLength) h
    rw [overruns_iff]
    cases hread : (H.read s).2 with
    | failed result hneg =>
      rw [readBlocks_failed hunwrap hread]
      refine iff_of_false (Option.some_ne_none _) ?_
      rintro ⟨bs, hlen, hbytes, -⟩
      cases hbytes
    | bytes bs hlen =>
      have hone : ∀ {p : Bytes → Prop}, (∃ bs' h', HidRead.bytes bs hlen = .bytes bs' h' ∧ p bs') ↔ p bs := by
        intro p
        constructor
        · rintro ⟨bs', -, ⟨⟩, hp⟩
          exact hp
        · exact fun hp => ⟨bs, hlen, rfl, hp⟩
      rw [hone]
      by_cases hout : Outside (maxBlock * j) bs
      · rw [readBlocks_outside hunwrap hread hout]
        exact iff_of_true rfl (.inl hout)
      · obtain ⟨hwritten, hstays⟩ := declares_writeAt hbuffer hj hout h
        have hnext : maxBlock * j + maxBlock < 2 ^ 31 := not_le.mp (not_or.mp hout).2
        rw [readBlocks_next hunwrap hread hout, or_iff_right hout, ← Nat.mul_succ]
        rw [← Nat.mul_succ] at hnext
        refine ih _ ?_ hwritten (Nat.le_add_left 1 j) hnext hstays rfl
        rw [← hm, Nat.mul_succ, maxBlock] at *
        omega

/-- Where more than a byte is declared, the buffer is large enough for what the caller takes. -/
lemma readBlocks_inside (hsmall : outLength ≤ 352) (hbuffer : buffer.length = bufferSize) (hj : 1 ≤ j) (hle : j ≤ 6)
    (h : ∀ n ≤ 1, n ≤ outLength → ¬ Declares buffer n) :
    (readBlocks H outLength s buffer (maxBlock * j)).2 ≠ none := by
  generalize hm : 6 - j = m
  induction m using Nat.strong_induction_on generalizing j s buffer with
  | _ m ih =>
    have hlong : (buffer.take (maxBlock * j)).length = maxBlock * j := by
      rw [List.length_take, hbuffer]
      unfold bufferSize maxBlock
      omega
    have hread := unwrapReponseAPDU_read (show 7 ≤ ledgerHidPacketSize by decide) (by decide) defaultLedgerChannel
      (buffer.take (maxBlock * j)) outLength
    generalize hr : unwrapReponseAPDU defaultLedgerChannel ledgerHidPacketSize (buffer.take (maxBlock * j)) outLength =
      r at hread
    cases hread with
    | response message hread hlen hroom =>
      have hdeclares : Declares buffer message.length := by
        rw [report_eq (by decide), ← List.append_assoc] at hread
        exact ((List.prefix_append _ _).trans hread).trans (List.take_prefix _ _)
      have htwo : 2 ≤ message.length := by
        by_contra hlt
        exact h message.length (by omega) hroom hdeclares
      rw [readBlocks_done (by omega) hr, takeResponse, if_neg (by omega)]
      exact Option.some_ne_none _
    | more out hout hshort =>
      have hroom : maxBlock * j + maxBlock ≤ bufferSize := by
        rw [hlong] at hshort
        generalize responseLength (buffer.take (maxBlock * j)) = L at hshort
        unfold reportLength packetCount ledgerHidPacketSize at hshort
        unfold maxBlock bufferSize at *
        omega
      cases hread : (H.read s).2 with
      | failed result hneg =>
        rw [readBlocks_failed hr hread]
        exact Option.some_ne_none _
      | bytes bs hlen =>
        have hwritten : (writeAt buffer (maxBlock * j) bs).length = bufferSize := by
          rw [writeAt_length (by omega), hbuffer]
        have hend : maxBlock * j ≤ buffer.length := by omega
        have hsame := take_writeAt (show 64 ≤ maxBlock * j by unfold maxBlock; omega) hend bs
        rw [readBlocks_next hr hread (not_outside hroom hlen), ← Nat.mul_succ]
        unfold maxBlock bufferSize at hroom
        exact ih (6 - (j + 1)) (by omega) hwritten (by omega) (by omega)
          (fun n hn hle' hdeclares => h n hn hle' ((declares_congr hsame).mp hdeclares)) rfl
    | failed out hout =>
      rw [readBlocks, hr]
      exact Option.some_ne_none _
    | outside hnot => exact absurd (usesWholePackets (by rw [hbuffer]; unfold maxBlock bufferSize; omega)) hnot

end Buffer

/-! ### One command -/

section Command

variable {σ : Type} {H : Hid σ} {s t : σ} {apdu buffer data : Bytes} {outLength : ℕ}

lemma wrapped (h : wrapCommandAPDU defaultLedgerChannel ledgerHidPacketSize apdu bufferSize = .ok data) :
    data = wholeReport defaultLedgerChannel ledgerHidPacketSize apdu ∧ data.length ≤ bufferSize := by
  have hspec := wrapCommandAPDU_spec (show 7 ≤ ledgerHidPacketSize by decide) (by decide) defaultLedgerChannel apdu
    bufferSize
  split at hspec
  · next hfits =>
    obtain rfl := Except.ok.inj (hspec.symm.trans h)
    exact ⟨rfl, (wholeReport_length (by decide) _ _).trans_le hfits⟩
  · obtain ⟨out, heq, -⟩ := hspec
    cases heq.symm.trans h

/-- The device and the buffer behind the first read, where the code comes so far. -/
def Hid.first (H : Hid σ) (s : σ) (apdu buffer : Bytes) : Option (σ × Bytes) :=
  match wrapCommandAPDU defaultLedgerChannel ledgerHidPacketSize apdu bufferSize with
  | .error _ => none
  | .ok data =>
    match writeBlocks H s data with
    | (_, some _) => none
    | (s', none) =>
      match H.read s' with
      | (_, .failed _ _) => none
      | (t, .bytes bs _) => some (t, writeAt (overlay buffer data) 0 bs)

/-- Up to the first read the code fails, or goes on with the loop. -/
lemma sendApduHidapi_first (H : Hid σ) (s : σ) (apdu : Bytes) (outLength : ℕ) (hbuffer : buffer.length = bufferSize) :
    (H.first s apdu buffer = none ∧
        ∃ t result hneg, sendApduHidapi H s apdu outLength buffer = (t, some (.failed result hneg))) ∨
      ∃ t b, H.first s apdu buffer = some (t, b) ∧ b.length = bufferSize ∧
        sendApduHidapi H s apdu outLength buffer = readBlocks H outLength t b maxBlock := by
  unfold sendApduHidapi Hid.first
  cases hwrap : wrapCommandAPDU defaultLedgerChannel ledgerHidPacketSize apdu bufferSize with
  | error out => exact .inl ⟨rfl, _, _, _, rfl⟩
  | ok data =>
    obtain ⟨-, hdata⟩ := wrapped hwrap
    rcases hwrite : writeBlocks H s data with ⟨s', _ | ⟨result, hneg⟩⟩
    · rcases hread : H.read s' with ⟨t, ⟨result, hneg⟩ | ⟨bs, hlen⟩⟩
      · exact .inl ⟨by simp only [hwrite, hread], t, result, hneg, by simp only [hwrite, hread]⟩
      · have hover : (overlay buffer data).length = bufferSize := (overlay_length (by omega)).trans hbuffer
        refine .inr ⟨t, writeAt (overlay buffer data) 0 bs, by simp only [hwrite, hread], ?_,
          by simp only [hwrite, hread]⟩
        unfold maxBlock at hlen
        unfold bufferSize at hover ⊢
        rw [writeAt_length (by omega), hover]
    · exact .inl ⟨by simp only [hwrite], s', result, hneg, by simp only [hwrite]⟩

/-- **When the transport leaves its arrays.**  Whatever the device does, and whatever the buffer held, an access is
outside, or `offset` overflows, just when the first packet declares a response of one byte, or of none and a read
behind it is outside. -/
theorem sendApduHidapi_eq_none_iff (H : Hid σ) (s : σ) (apdu : Bytes) (hsmall : outLength ≤ 352)
    (hbuffer : buffer.length = bufferSize) :
    (sendApduHidapi H s apdu outLength buffer).2 = none ↔
      ∃ t b, H.first s apdu buffer = some (t, b) ∧
        (1 ≤ outLength ∧ Declares b 1 ∨ Declares b 0 ∧ H.Overruns t maxBlock) := by
  rcases sendApduHidapi_first H s apdu outLength hbuffer with ⟨hfirst, t, result, hneg, heq⟩ | ⟨t, b, hfirst, hb, heq⟩
  · rw [heq]
    refine iff_of_false (Option.some_ne_none _) ?_
    rintro ⟨t, b, hsome, -⟩
    cases hfirst.symm.trans hsome
  have hunique : ∀ {n m : ℕ}, n < 2 ^ 16 → m < 2 ^ 16 → Declares b n → Declares b m → n = m := by
    rintro n m hn hm ⟨rest, rfl⟩ ⟨rest', hrest⟩
    rw [List.append_assoc, List.append_assoc] at hrest
    rw [← responseLength_header defaultLedgerChannel hn rest, ← hrest,
      responseLength_header defaultLedgerChannel hm rest']
  have hone : (1 : ℕ) ≤ 6 := by decide
  rw [heq, show maxBlock = maxBlock * 1 from rfl]
  constructor
  · intro hnone
    refine ⟨t, b, hfirst, ?_⟩
    by_contra hnot
    obtain ⟨hnot₁, hnot₀⟩ := not_or.mp hnot
    by_cases hzero : Declares b 0
    · exact hnot₀ ⟨hzero, (readBlocks_nothing hb le_rfl (by decide) hzero).mp hnone⟩
    · refine readBlocks_inside hsmall hb le_rfl hone (fun n hn hroom hdeclares => ?_) hnone
      rcases Nat.le_one_iff_eq_zero_or_eq_one.mp hn with rfl | rfl
      · exact hzero hdeclares
      · exact hnot₁ ⟨hroom, hdeclares⟩
  · rintro ⟨t', b', hsome, hcase⟩
    obtain ⟨rfl, rfl⟩ := Prod.mk.inj (Option.some.inj (hfirst.symm.trans hsome))
    rcases hcase with ⟨hroom, hdeclares⟩ | ⟨hdeclares, hall⟩
    · obtain ⟨out, hunwrap⟩ := unwrap_declared hb le_rfl le_rfl hroom hdeclares
      rw [readBlocks_done Nat.one_pos hunwrap]
      rfl
    · exact (readBlocks_nothing hb le_rfl (by decide) hdeclares).mpr hall

/-- A device with these reads, one after the other. -/
def Hid.reading (reads : ℕ → HidRead) : Hid ℕ where
  write n block := (n, block.length)
  read n := (n + 1, reads n)

/-- A device that declares nothing. -/
theorem sendApduHidapi_eq_none_nothing :
    (sendApduHidapi (.reading fun _ => .bytes [1, 1, 5, 0, 0, 0, 0] (by decide)) 0 [4] 120
        (List.replicate 400 0)).2 = none ↔
      ∃ t b, (Hid.reading fun _ => .bytes [1, 1, 5, 0, 0, 0, 0] (by decide)).first 0 [4] (List.replicate 400 0) =
          some (t, b) ∧
        (1 ≤ 120 ∧ Declares b 1 ∨
          Declares b 0 ∧ (Hid.reading fun _ => .bytes [1, 1, 5, 0, 0, 0, 0] (by decide)).Overruns t maxBlock) :=
  sendApduHidapi_eq_none_iff _ 0 [4] (by decide) (List.length_replicate ..)

/-! ### Whole responses -/

section Whole

variable {message : Bytes} {q j : ℕ} {b : Bytes}

lemma Carries.count (h : Carries defaultLedgerChannel ledgerHidPacketSize message data) :
    ∃ q, data.length = maxBlock * q ∧ 1 ≤ q := by
  refine ⟨_, h.size.trans (Nat.mul_comm _ _), ?_⟩
  have hpos := packetCount_pos (show 0 < ledgerHidPacketSize - 5 by decide) (show 0 < message.length + 2 by omega)
  omega

/-- **The loop rule.**  Where the buffer shows the packets that carry a message, up to the one that was read last, and
a read shows the next one, the message is the response. -/
lemma readBlocks_carries (P : σ → Bytes → ℕ → Prop)
    (hcarries : Carries defaultLedgerChannel ledgerHidPacketSize message data) (hq : data.length = maxBlock * q)
    (hroom : message.length ≤ outLength) (hpos : 0 < message.length) (hfits : data.length ≤ bufferSize)
    (hshows : ∀ s b j, P s b j → j ≤ q → b.take (maxBlock * j) = data.take (maxBlock * j))
    (hstep : ∀ s b j, P s b j → j < q → ∃ bs hlen, (H.read s).2 = .bytes bs hlen ∧
      P (H.read s).1 (writeAt b (maxBlock * j) bs) (j + 1))
    (h : P s b j) (hj : j ≤ q) :
    ∃ t b', readBlocks H outLength s b (maxBlock * j) = (t, takeResponse message.length message) ∧ P t b' q := by
  generalize hm : q - j = m
  induction m generalizing s b j with
  | zero =>
    obtain rfl : j = q := by omega
    have hall := hcarries.all outLength hroom
    rw [← List.take_length (l := data), hq, ← hshows s b j h le_rfl] at hall
    exact ⟨s, b, readBlocks_done hpos hall, h⟩
  | succ m ih =>
    have hlt : j < q := by omega
    obtain ⟨bs, hlen, hread, hnext⟩ := hstep s b j h hlt
    obtain ⟨out, hpart, -⟩ := hcarries.part outLength hroom j (by
      rw [hq, Nat.mul_comm]
      exact Nat.mul_lt_mul_of_pos_left hlt (by decide))
    rw [ledgerHidPacketSize, show j * 64 = maxBlock * j from Nat.mul_comm _ _, ← hshows s b j h hj] at hpart
    have hless : maxBlock * j + maxBlock ≤ bufferSize := by
      have hmul : maxBlock * (j + 1) ≤ maxBlock * q := Nat.mul_le_mul_left _ hlt
      rw [Nat.mul_succ] at hmul
      omega
    rw [readBlocks_next hpart hread (not_outside hless hlen), ← Nat.mul_succ]
    exact ih hnext hlt (by omega)

def Hid.Silent (H : Hid σ) (s : σ) : Prop := ∀ n, ∃ h, H.nth s n = .bytes [] h

/-- **A device that says nothing is taken at the user's word.**  The buffer still holds the command when the time is
over, and the code reads it as the response: the last two bytes of the command are the status word. -/
lemma sendApduHidapi_silent (H : Hid σ) {s t : σ}
    (hwrite : writeBlocks H s (wholeReport defaultLedgerChannel ledgerHidPacketSize apdu) = (t, none))
    (hsilent : H.Silent t) (hlow : 2 ≤ apdu.length) (hhigh : apdu.length ≤ 352) (outLength : ℕ)
    (buffer : Bytes) :
    (sendApduHidapi H s apdu outLength buffer).2 =
      if apdu.length ≤ outLength then takeResponse apdu.length apdu
      else some (.failed (-1) minusOne_neg) := by
  have hfits : reportSize ledgerHidPacketSize apdu.length ≤ bufferSize := by
    unfold reportSize packetCount ledgerHidPacketSize bufferSize
    omega
  have hwrap : wrapCommandAPDU defaultLedgerChannel ledgerHidPacketSize apdu bufferSize =
      .ok (wholeReport defaultLedgerChannel ledgerHidPacketSize apdu) := by
    have hspec := wrapCommandAPDU_spec (show 7 ≤ ledgerHidPacketSize by decide) (by decide) defaultLedgerChannel apdu
      bufferSize
    rwa [if_pos hfits] at hspec
  have hcarries := carries_wholeReport (show 12 ≤ ledgerHidPacketSize by decide) (by decide) defaultLedgerChannel
    (show apdu.length < 2 ^ 16 by omega)
  have hfirst : ∃ rest, wholeReport defaultLedgerChannel ledgerHidPacketSize apdu =
      packetHeader defaultLedgerChannel 0 ++ (lengthBytes apdu.length ++ rest) := by
    rw [wholeReport, report_eq (by decide), List.append_assoc, List.append_assoc]
    exact ⟨_, rfl⟩
  generalize wholeReport defaultLedgerChannel ledgerHidPacketSize apdu = data at hwrite hwrap hcarries hfirst
  obtain ⟨hnil, hread⟩ := hsilent 0
  have hover : data <+: overlay buffer data := List.prefix_append _ _
  have hsend : sendApduHidapi H s apdu outLength buffer =
      readBlocks H outLength (H.read t).1 (overlay buffer data) maxBlock := by
    have hread' : H.read t = ((H.read t).1, .bytes [] hnil) := Prod.ext rfl hread
    unfold sendApduHidapi
    rw [hwrap]
    dsimp only
    rw [hwrite]
    dsimp only
    rw [hread']
    dsimp only
    rw [writeAt_nil]
  rw [hsend]
  obtain ⟨q, hq, hone⟩ := hcarries.count
  split
  · next hroom =>
    have hshows : ∀ (s : σ) (b : Bytes) (j : ℕ), H.Silent s ∧ data <+: b → j ≤ q →
        b.take (maxBlock * j) = data.take (maxBlock * j) := by
      rintro s b j ⟨-, rest, rfl⟩ hj
      exact List.take_append_of_le_length (hq ▸ Nat.mul_le_mul_left _ hj)
    have hstep : ∀ (s : σ) (b : Bytes) (j : ℕ), H.Silent s ∧ data <+: b → j < q →
        ∃ bs hlen, (H.read s).2 = .bytes bs hlen ∧
          H.Silent (H.read s).1 ∧ data <+: writeAt b (maxBlock * j) bs := by
      rintro s b j ⟨hsilent, hprefix⟩ -
      obtain ⟨hlen, hread⟩ := hsilent 0
      refine ⟨[], hlen, hread, fun n => hsilent (n + 1), ?_⟩
      rwa [writeAt_nil]
    obtain ⟨t', b', hloop, -⟩ := readBlocks_carries (fun s b _ => H.Silent s ∧ data <+: b) hcarries hq hroom (by omega)
      (hcarries.size.trans_le hfits) hshows hstep ⟨fun n => hsilent (n + 1), hover⟩ hone
    rw [Nat.mul_one] at hloop
    rw [hloop]
  · next hroom =>
    obtain ⟨rest, rfl⟩ := hfirst
    have hlen : 57 ≤ rest.length := by
      rw [List.length_append, packetHeader_length, List.length_append, lengthBytes_length] at hq
      unfold maxBlock at hq
      omega
    have hfront : (overlay buffer (packetHeader defaultLedgerChannel 0 ++ (lengthBytes apdu.length ++ rest))).take
        maxBlock = packetHeader defaultLedgerChannel 0 ++ (lengthBytes apdu.length ++ rest.take 57) := by
      have hmax : maxBlock = (packetHeader defaultLedgerChannel 0).length +
          ((lengthBytes apdu.length).length + 57) := rfl
      rw [overlay, List.append_assoc, hmax, List.take_length_add_append, List.append_assoc,
        List.take_length_add_append, List.take_append_of_le_length hlen]
    have hrefused := unwrapReponseAPDU_refused defaultLedgerChannel ledgerHidPacketSize
      (show apdu.length < 2 ^ 16 by omega) (not_le.mp hroom) (show 5 ≤ (rest.take 57).length by
        rw [List.length_take]
        omega)
    rw [← hfront] at hrefused
    rw [readBlocks_refused hrefused]

lemma writeBlocks_reading (reads : ℕ → HidRead) (n : ℕ) (data : Bytes) :
    writeBlocks (.reading reads) n data = (n, none) := by
  generalize hm : data.length = m
  induction m using Nat.strong_induction_on generalizing data with
  | _ m ih =>
    rw [writeBlocks]
    by_cases hnil : data = []
    · rw [dif_pos hnil]
    · have hpos := List.length_pos_of_ne_nil hnil
      have hres : ¬ ((Hid.reading reads).write n (data.take maxBlock)).2 < 0 := (Int.natCast_nonneg _).not_gt
      rw [dif_neg hnil]
      dsimp only
      rw [dif_neg hres]
      exact ih (data.drop maxBlock).length (by rw [List.length_drop, maxBlock]; omega) _ rfl

lemma silent_reading (n : ℕ) : (Hid.reading fun _ => .bytes [] (Nat.zero_le _)).Silent n := by
  intro i
  exact ⟨Nat.zero_le _, rfl⟩

end Whole

end Command

end Libaergo.Ledger
