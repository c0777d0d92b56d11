import Libaergo.Ledger.Hid

/-!
# A device behind packets

The commands to a device are modelled by what it replies to them (`Dongle`), and the transport by what a device makes
of packets (`Hid`).  Here the two meet: a device that puts the packets of a command together and answers in packets
with what it has to say is, through `sendApduHidapi`, the device that it is.
-/

namespace Libaergo.Ledger

open Lib

/-- What such a device holds: the commands it has taken, the packets of the next one, the packets it has still to
say, and the failure of its reads if they fail. -/
structure Packeted where
  sent : List Bytes
  input : Bytes
  output : Bytes
  fails : Option {result : ℤ // result < 0}

/-- The last two bytes of a response are the status word. -/
def withStatus (out : Bytes) (sw : UInt16) : Bytes := out ++ lengthBytes sw.toNat

/-- The device has taken these commands, and has its reply to the last one ready. -/
def Dongle.answered (D : Dongle) (sent : List Bytes) : Packeted :=
  match D.send sent with
  | .failed result h => ⟨sent, [], [], some ⟨result, h⟩⟩
  | .response out sw =>
    ⟨sent, [], wholeReport defaultLedgerChannel ledgerHidPacketSize (withStatus out sw), none⟩

/-- **The device in packets.** -/
def Dongle.hid (D : Dongle) : Hid Packeted where
  write s block :=
    match unwrapReponseAPDU defaultLedgerChannel ledgerHidPacketSize (s.input ++ block) (2 ^ 16) with
    | none => ({ s with input := s.input ++ block }, block.length)
    | some (n, command) =>
      if 0 < n then (D.answered (s.sent ++ [command]), block.length)
      else ({ s with input := s.input ++ block }, block.length)
  read s :=
    match s.fails with
    | some ⟨result, h⟩ => (s, .failed result h)
    | none => ({ s with output := s.output.drop maxBlock }, .bytes (s.output.take maxBlock) (List.length_take_le _ _))

/-- The replies to commands sent one after the other, and the last of them; the buffer of each call may hold anything
before. -/
def Hid.lastReply {σ : Type} (H : Hid σ) (outLength : ℕ) (buffer : σ → Bytes) : σ → List Bytes → Option Reply
  | _, [] => none
  | s, [apdu] => (sendApduHidapi H s apdu outLength (buffer s)).2
  | s, apdu :: apdus => Hid.lastReply H outLength buffer (sendApduHidapi H s apdu outLength (buffer s)).1 apdus

/-- What `ledger_send_apdu` has to do with: the library, and the device at its transport. -/
def Dongle.through {σ : Type} (D : Dongle) (H : Hid σ) (s : σ) (outLength : ℕ) (buffer : σ → Bytes) : Dongle where
  init := D.init
  initError := D.initError
  found := D.found
  send sent := (H.lastReply outLength buffer s sent).getD (.failed (-1) minusOne_neg)

/-! ### One command -/

section Command

variable {D : Dongle} {sent : List Bytes} {apdu data message : Bytes} {q j : ℕ} {s : Packeted}

lemma hid_write (hcarries : Carries defaultLedgerChannel ledgerHidPacketSize apdu data) (hq : data.length = maxBlock * q)
    (hapdu : apdu.length < 2 ^ 16) (hpos : 0 < apdu.length) (hj : j < q) (hinput : s.input = data.take (maxBlock * j)) :
    D.hid.write s ((data.drop (maxBlock * j)).take maxBlock) =
      (if j + 1 = q then D.answered (s.sent ++ [apdu])
        else { s with input := data.take (maxBlock * (j + 1)) },
        (((data.drop (maxBlock * j)).take maxBlock).length : ℤ)) := by
  have hall : s.input ++ (data.drop (maxBlock * j)).take maxBlock = data.take (maxBlock * (j + 1)) := by
    rw [hinput, ← List.take_add, Nat.mul_succ]
  unfold Dongle.hid
  dsimp only
  rw [hall]
  by_cases hlast : j + 1 = q
  · rw [hlast, ← hq, List.take_length, hcarries.all (2 ^ 16) hapdu.le]
    dsimp only
    rw [if_pos (by omega), if_pos rfl]
  · obtain ⟨out, hpart, -⟩ := hcarries.part (2 ^ 16) hapdu.le (j + 1) (by
      rw [hq, Nat.mul_comm]
      exact Nat.mul_lt_mul_of_pos_left (show j + 1 < q by omega) (by decide))
    rw [ledgerHidPacketSize, show (j + 1) * 64 = maxBlock * (j + 1) from Nat.mul_comm _ _] at hpart
    rw [ledgerHidPacketSize, hpart]
    dsimp only
    rw [if_neg (lt_irrefl _), if_neg hlast]

/-- **A command is taken.** -/
lemma hid_writeBlocks (hcarries : Carries defaultLedgerChannel ledgerHidPacketSize apdu data)
    (hq : data.length = maxBlock * q) (hapdu : apdu.length < 2 ^ 16) (hpos : 0 < apdu.length) (hj : j < q)
    (hinput : s.input = data.take (maxBlock * j)) :
    writeBlocks D.hid s (data.drop (maxBlock * j)) = (D.answered (s.sent ++ [apdu]), none) := by
  generalize hm : q - j = m
  induction m generalizing s j with
  | zero => omega
  | succ m ih =>
    have hmul : maxBlock * (j + 1) ≤ maxBlock * q := Nat.mul_le_mul_left _ hj
    have hne : data.drop (maxBlock * j) ≠ [] := by
      apply List.ne_nil_of_length_pos
      rw [Nat.mul_succ, maxBlock] at hmul
      rw [List.length_drop, hq, maxBlock]
      omega
    have hdrop : (data.drop (maxBlock * j)).drop maxBlock = data.drop (maxBlock * (j + 1)) := by
      rw [List.drop_drop, Nat.mul_succ]
    have hwrite := hid_write (D := D) hcarries hq hapdu hpos hj hinput
    rw [writeBlocks, dif_neg hne, hwrite]
    dsimp only
    rw [dif_neg (Int.natCast_nonneg _).not_gt, hdrop]
    by_cases hlast : j + 1 = q
    · rw [if_pos hlast, hlast, List.drop_of_length_le hq.le, writeBlocks, dif_pos rfl]
    · rw [if_neg hlast]
      exact ih (s := { s with input := data.take (maxBlock * (j + 1)) }) (by omega) rfl (by omega)

lemma takeResponse_withStatus (out : Bytes) (sw : UInt16) :
    takeResponse (withStatus out sw).length (withStatus out sw) = some (.response out sw) := by
  have hlen : (withStatus out sw).length = out.length + 2 := by
    rw [withStatus, List.length_append, lengthBytes_length]
  have hsw := sw.toNat_lt
  have hhigh : (withStatus out sw).getD out.length 0 = UInt8.ofNat (sw.toNat / 256) := by
    rw [withStatus, List.getD_append_right _ _ _ _ le_rfl, Nat.sub_self]
    rfl
  have hlow : (withStatus out sw).getD (out.length + 1) 0 = UInt8.ofNat sw.toNat := by
    rw [withStatus, List.getD_append_right _ _ _ _ (Nat.le_add_right _ 1), Nat.add_sub_cancel_left]
    rfl
  have htake : (withStatus out sw).take out.length = out := List.take_left
  rw [hlen, takeResponse, if_neg (by omega), Nat.add_sub_cancel, htake, show out.length + 2 - 1 = out.length + 1 from rfl,
    hhigh, hlow, beNat_lengthBytes hsw, UInt16.ofNat_toNat]

lemma hid_read (hfails : s.fails = none) :
    D.hid.read s = ({ s with output := s.output.drop maxBlock },
      .bytes (s.output.take maxBlock) (List.length_take_le _ _)) := by
  unfold Dongle.hid
  dsimp only
  rw [hfails]

/-- What the reads of a response leave: what is still to be said is behind what the buffer shows. -/
structure Said (sent : List Bytes) (data : Bytes) (t : Packeted) (b : Bytes) (j : ℕ) : Prop where
  sent : t.sent = sent
  input : t.input = []
  fails : t.fails = none
  output : t.output = data.drop (maxBlock * j)
  size : b.length = bufferSize
  shown : b.take (maxBlock * j) = data.take (maxBlock * j)

lemma Said.read {b : Bytes} (h : Said sent data s b j) (hq : data.length = maxBlock * q) (hfits : data.length ≤ bufferSize)
    (hj : j < q) :
    ∃ bs hlen, (D.hid.read s).2 = .bytes bs hlen ∧
      Said sent data (D.hid.read s).1 (writeAt b (maxBlock * j) bs) (j + 1) := by
  have hmul : maxBlock * (j + 1) ≤ maxBlock * q := Nat.mul_le_mul_left _ hj
  rw [Nat.mul_succ, ← hq] at hmul
  have hlen : ((data.drop (maxBlock * j)).take maxBlock).length = maxBlock := by
    rw [List.length_take, List.length_drop]
    omega
  have hsize := h.size
  rw [hid_read h.fails]
  refine ⟨_, _, rfl, h.sent, h.input, h.fails, ?_, ?_, ?_⟩
  · rw [h.output, List.drop_drop, Nat.mul_succ]
  · rw [h.output, writeAt_length (by omega), hsize]
  · rw [h.output, Nat.mul_succ]
    have hshown := take_writeAt_add (show maxBlock * j ≤ b.length by omega) ((data.drop (maxBlock * j)).take maxBlock)
    rwa [hlen, h.shown, ← List.take_add] at hshown

/-- **A command gets its reply**, whatever was in the buffer. -/
lemma sendApduHidapi_hid {outLength : ℕ} {buffer : Bytes} (hsmall : outLength ≤ 352) (hpos : 1 ≤ apdu.length)
    (hsize : apdu.length ≤ 352) (hbuffer : buffer.length = bufferSize) (hinput : s.input = [])
    (hreply : ∀ out sw, D.send (s.sent ++ [apdu]) = .response out sw → out.length + 2 ≤ outLength) :
    ∃ t, sendApduHidapi D.hid s apdu outLength buffer = (t, some (D.send (s.sent ++ [apdu]))) ∧
      t.sent = s.sent ++ [apdu] ∧ t.input = [] := by
  have hfits : ∀ n ≤ 352, reportSize ledgerHidPacketSize n ≤ bufferSize := by
    intro n hn
    unfold reportSize packetCount ledgerHidPacketSize bufferSize
    omega
  have hcarries : ∀ m : Bytes, m.length ≤ 352 → Carries defaultLedgerChannel ledgerHidPacketSize m
      (wholeReport defaultLedgerChannel ledgerHidPacketSize m) :=
    fun m hm => carries_wholeReport (by decide) (by decide) _ (by omega)
  have hwrap : wrapCommandAPDU defaultLedgerChannel ledgerHidPacketSize apdu bufferSize =
      .ok (wholeReport defaultLedgerChannel ledgerHidPacketSize apdu) := by
    have hspec := wrapCommandAPDU_spec (show 7 ≤ ledgerHidPacketSize by decide) (by decide) defaultLedgerChannel apdu
      bufferSize
    rwa [if_pos (hfits _ hsize)] at hspec
  obtain ⟨q, hq, hone⟩ := (hcarries apdu hsize).count
  have hwrite : writeBlocks D.hid s (wholeReport defaultLedgerChannel ledgerHidPacketSize apdu) =
      (D.answered (s.sent ++ [apdu]), none) :=
    hid_writeBlocks (hcarries apdu hsize) hq (by omega) hpos hone hinput
  have hdata : (wholeReport defaultLedgerChannel ledgerHidPacketSize apdu).length ≤ bufferSize :=
    (hcarries apdu hsize).size.trans_le (hfits _ hsize)
  unfold sendApduHidapi
  rw [hwrap]
  dsimp only
  rw [hwrite]
  dsimp only
  cases hsend : D.send (s.sent ++ [apdu]) with
  | failed result h =>
    refine ⟨⟨s.sent ++ [apdu], [], [], some ⟨result, h⟩⟩, ?_, rfl, rfl⟩
    rw [Dongle.answered, hsend]
    rfl
  | response out sw =>
    have hlen : (withStatus out sw).length = out.length + 2 := by
      rw [withStatus, List.length_append, lengthBytes_length]
    have hroom := hreply out sw hsend
    have hcarries' := hcarries (withStatus out sw) (by omega)
    have hanswered : D.answered (s.sent ++ [apdu]) = ⟨s.sent ++ [apdu], [],
        wholeReport defaultLedgerChannel ledgerHidPacketSize (withStatus out sw), none⟩ := by
      rw [Dongle.answered, hsend]
    obtain ⟨q', hq', hone'⟩ := hcarries'.count
    have hfits' := hcarries'.size.trans_le (hfits _ (show (withStatus out sw).length ≤ 352 by omega))
    have hover : (overlay buffer (wholeReport defaultLedgerChannel ledgerHidPacketSize apdu)).length = bufferSize :=
      (overlay_length (by omega)).trans hbuffer
    have hstart : Said (s.sent ++ [apdu]) (wholeReport defaultLedgerChannel ledgerHidPacketSize (withStatus out sw))
        (D.answered (s.sent ++ [apdu])) (overlay buffer (wholeReport defaultLedgerChannel ledgerHidPacketSize apdu)) 0 := by
      rw [hanswered]
      exact ⟨rfl, rfl, rfl, rfl, hover, rfl⟩
    obtain ⟨bs, hbs, hread, hsaid⟩ := hstart.read (D := D) hq' hfits' hone'
    obtain ⟨t, b, hloop, hend⟩ := readBlocks_carries (Said (s.sent ++ [apdu]) _) hcarries' hq' (hlen.trans_le hroom)
      (by omega) hfits' (fun s b j h _ => h.shown) (fun s b j h hj => h.read hq' hfits' hj) hsaid hone'
    refine ⟨t, ?_, hend.sent, hend.input⟩
    have hread' : D.hid.read (D.answered (s.sent ++ [apdu])) =
        ((D.hid.read (D.answered (s.sent ++ [apdu]))).1, .bytes bs hbs) := Prod.ext rfl hread
    rw [hread']
    dsimp only
    exact hloop.trans (by rw [takeResponse_withStatus])

end Command

/-! ### The exchange -/

/-- A command that fits the buffer of the transport. -/
def Sendable (apdu : Bytes) : Prop := 1 ≤ apdu.length ∧ apdu.length ≤ 352

/-- The replies of the device fit the buffer of the caller. -/
def Dongle.RepliesFit (D : Dongle) (outLength : ℕ) : Prop :=
  ∀ sent out sw, D.send sent = .response out sw → out.length + 2 ≤ outLength

def Packeted.start : Packeted := ⟨[], [], [], none⟩

section Exchange

variable {D D' : Dongle} {outLength offset k : ℕ} {buffer : Packeted → Bytes} {e : Exchange}

/-- **The run**: the reply to the last of the commands is that of the device to all of them. -/
lemma lastReply_hid (hsmall : outLength ≤ 352) (hbuffer : ∀ s, (buffer s).length = bufferSize)
    (hreplies : D.RepliesFit outLength) {apdus : List Bytes} (hne : apdus ≠ []) (hapdus : ∀ a ∈ apdus, Sendable a)
    {s : Packeted} (hinput : s.input = []) :
    D.hid.lastReply outLength buffer s apdus = some (D.send (s.sent ++ apdus)) := by
  induction apdus generalizing s with
  | nil => exact absurd rfl hne
  | cons a apdus ih =>
    obtain ⟨hpos, hsize⟩ := hapdus a List.mem_cons_self
    obtain ⟨t, hsend, hsent, hinput'⟩ := sendApduHidapi_hid hsmall hpos hsize (hbuffer s) hinput
      (hreplies (s.sent ++ [a]))
    cases apdus with
    | nil => rw [Hid.lastReply, hsend]
    | cons b apdus =>
      rw [Hid.lastReply, hsend, ih (List.cons_ne_nil b apdus) (fun c hc => hapdus c (List.mem_cons_of_mem a hc)) hinput',
        hsent, List.append_assoc]
      · rfl
      · exact List.cons_ne_nil b apdus

lemma sendable_packet (apduCla apduIns apduP1 : UInt8) (data : Bytes) (offset : ℕ) :
    Sendable (packet apduCla apduIns apduP1 data offset) := by
  have hmax := chunkLength_le data offset
  have hlen : (packet apduCla apduIns apduP1 data offset).length =
      5 + ((data.drop offset).take (chunkLength data offset)).length := by
    rw [packet, List.length_append]
    rfl
  rw [List.length_take] at hlen
  unfold Sendable
  omega

def Left.exchange : Left → Exchange
  | .loop e => e
  | .exit e => e

/-- Two devices that reply alike to what is sent are alike to the inner loop. -/
lemma sendChunks_congr (hsend : ∀ sent, sent ≠ [] → (∀ a ∈ sent, Sendable a) → D.send sent = D'.send sent)
    (apduCla apduIns apduP1 : UInt8) (data : Bytes) (k : ℕ) (h : ∀ a ∈ e.sent, Sendable a) :
    sendChunks D apduCla apduIns apduP1 data k e = sendChunks D' apduCla apduIns apduP1 data k e ∧
      ∀ left, sendChunks D apduCla apduIns apduP1 data k e = some left → ∀ a ∈ left.exchange.sent, Sendable a := by
  induction k generalizing e with
  | zero =>
    refine ⟨rfl, fun left hleft => ?_⟩
    cases hleft
  | succ k ih =>
    by_cases hlt : e.offset < data.length
    · have hgrown : ∀ a ∈ e.sent ++ [packet apduCla apduIns apduP1 data e.offset], Sendable a := by
        intro a ha
        rcases List.mem_append.mp ha with ha | ha
        · exact h a ha
        · obtain rfl := List.mem_singleton.mp ha
          exact sendable_packet apduCla apduIns apduP1 data e.offset
      have heq := hsend _ (List.append_ne_nil_of_right_ne_nil e.sent (List.cons_ne_nil _ _)) hgrown
      cases hreply : D.send (e.sent ++ [packet apduCla apduIns apduP1 data e.offset]) with
      | failed result hneg =>
        rw [sendChunks_failed hlt hneg hreply, sendChunks_failed hlt hneg (heq.symm.trans hreply)]
        refine ⟨rfl, ?_⟩
        rintro left ⟨⟩
        exact hgrown
      | response out sw =>
        by_cases hrestart : sw = swRestart
        · subst hrestart
          rw [sendChunks_restart hlt hreply, sendChunks_restart hlt (heq.symm.trans hreply)]
          refine ⟨rfl, ?_⟩
          rintro left ⟨⟩
          exact hgrown
        · by_cases hok : sw = swOk
          · subst hok
            by_cases hout : out = []
            · subst hout
              rw [sendChunks_more hlt hreply, sendChunks_more hlt (heq.symm.trans hreply)]
              exact ih hgrown
            · rw [sendChunks_answered hlt hout hreply, sendChunks_answered hlt hout (heq.symm.trans hreply)]
              refine ⟨rfl, ?_⟩
              rintro left ⟨⟩
              exact hgrown
          · rw [sendChunks_refused hlt hrestart hok hreply, sendChunks_refused hlt hrestart hok (heq.symm.trans hreply)]
            refine ⟨rfl, ?_⟩
            rintro left ⟨⟩
            exact hgrown
    · have hend : ∀ E : Dongle, sendChunks E apduCla apduIns apduP1 data (k + 1) e = some (.loop e) := by
        intro E
        rw [sendChunks, if_neg hlt]
      rw [hend, hend]
      refine ⟨rfl, ?_⟩
      rintro left ⟨⟩
      exact h

lemma sendAll_congr (hsend : ∀ sent, sent ≠ [] → (∀ a ∈ sent, Sendable a) → D.send sent = D'.send sent)
    (apduCla apduIns apduP1 : UInt8) (data : Bytes) (k n : ℕ) (h : ∀ a ∈ e.sent, Sendable a) :
    sendAll D apduCla apduIns apduP1 data k n e = sendAll D' apduCla apduIns apduP1 data k n e := by
  induction n generalizing e with
  | zero => rfl
  | succ n ih =>
    rw [sendAll, sendAll]
    split
    · obtain ⟨heq, hall⟩ := sendChunks_congr (e := { e with offset := 0 }) hsend apduCla apduIns apduP1 data k h
      rw [← heq]
      cases hleft : sendChunks D apduCla apduIns apduP1 data k { e with offset := 0 } with
      | none => rfl
      | some left =>
        cases left with
        | exit e' => rfl
        | loop e' => exact ih (hall _ hleft)
    · rfl

/-- **The packets do not show.**  For a device whose replies fit the caller's buffer, `ledger_send_apdu` over the
transport in packets is `ledger_send_apdu` to the device itself: the same commands are taken in the same order, the same
replies come back, and it returns the same, wherever the device begins again, refuses or fails. -/
theorem ledgerSendApdu_through (D : Dongle) (hsmall : outLength ≤ 352) (hbuffer : ∀ s, (buffer s).length = bufferSize)
    (hreplies : D.RepliesFit outLength) (apduCla apduIns apduP1 : UInt8) (data : Bytes) (k : ℕ) :
    ledgerSendApdu (D.through D.hid .start outLength buffer) apduCla apduIns apduP1 data k =
      ledgerSendApdu D apduCla apduIns apduP1 data k := by
  have hsend : ∀ sent, sent ≠ [] → (∀ a ∈ sent, Sendable a) →
      (D.through D.hid .start outLength buffer).send sent = D.send sent := by
    intro sent hne hsent
    have hlast := lastReply_hid hsmall hbuffer hreplies hne hsent (s := .start) rfl
    change (D.hid.lastReply outLength buffer .start sent).getD _ = _
    rw [hlast]
    rfl
  have hnone : ∀ a ∈ (⟨[], 0, 0, 0, []⟩ : Exchange).sent, Sendable a := fun a ha => absurd ha List.not_mem_nil
  have hall := sendAll_congr hsend apduCla apduIns apduP1 data k k hnone
  have hinit : (D.through D.hid .start outLength buffer).init = D.init := rfl
  have hfound : (D.through D.hid .start outLength buffer).found = D.found := rfl
  rw [ledgerSendApdu, ledgerSendApdu, hall, hinit, hfound]

/-- Two chunks to a device that wants the first one again. -/
theorem ledgerSendApdu_through_again :
    ledgerSendApdu (restartingDongle.through restartingDongle.hid .start 120 fun _ => List.replicate 400 0) 0xAE 0x04 0
        (List.replicate 300 7) 400 =
      ledgerSendApdu restartingDongle 0xAE 0x04 0 (List.replicate 300 7) 400 := by
  refine ledgerSendApdu_through restartingDongle (by decide) (fun _ => List.length_replicate ..)
    (fun sent out sw h => ?_) 0xAE 0x04 0 (List.replicate 300 7) 400
  simp only [restartingDongle] at h
  split at h
  · obtain ⟨rfl, -⟩ := Reply.response.inj h
    decide
  · split at h <;>
    · obtain ⟨rfl, -⟩ := Reply.response.inj h
      decide

end Exchange

end Libaergo.Ledger
