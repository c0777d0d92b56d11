import Libaergo.Lib.Bytes
import Libaergo.Lib.Packets

/-!
# The packets of the Ledger (`ledger/ledgerLayer.c`)

A command and a response go over the wire as packets of one size: the channel, a tag, the number of the packet, and
a block of the message, in front of which stands its length.  `wrapCommandAPDU` writes the packets of a command and
zeros behind the last one; `unwrapReponseAPDU` reads a response from the packets that have come so far, and returns
zero as long as it wants more of them.

The functions are those of the source for every packet size, with its `unsigned int` subtractions.  Lengths are below
2^31, so that no `int` overflows.  What is in front of an offset has been written, or read, so that the offsets are
what is left of the command and of the data.
-/

namespace Libaergo.Ledger

open Lib

/-! ### The functions -/

def tagApdu : UInt8 := 0x05

/-- `a - b` of two `unsigned int`. -/
def usub (a b : ℕ) : ℕ := (a + 2 ^ 32 - b) % 2 ^ 32

def packetHeader (channel sequenceIdx : ℕ) : Bytes :=
  [UInt8.ofNat (channel / 256), UInt8.ofNat channel, tagApdu, UInt8.ofNat (sequenceIdx / 256),
    UInt8.ofNat sequenceIdx]

def lengthBytes (n : ℕ) : Bytes := [UInt8.ofNat (n / 256), UInt8.ofNat n]

def blockSize (left room : ℕ) : ℕ := if room < left then room else left

section Wrap

variable (channel packetSize : ℕ)

/-- `while (offset != commandLength)`: what is left of `outLength`, and what is in `out`; behind an error, the
latter. -/
def wrapBlocks (outLength sequenceIdx : ℕ) (command out : Bytes) : Except Bytes (ℕ × Bytes) :=
  if command = [] then .ok (outLength, out)
  else if outLength < 5 then .error out
  else
    let out := out ++ packetHeader channel sequenceIdx
    let size := blockSize command.length (usub packetSize 5)
    if outLength - 5 < size then .error out
    else wrapBlocks (outLength - 5 - size) (sequenceIdx + 1) (command.drop size) (out ++ command.take size)
termination_by outLength

/-- `while ((offsetOut % packetSize) != 0)` -/
def wrapPadding (outLength : ℕ) (out : Bytes) : Except Bytes Bytes :=
  if out.length % packetSize = 0 then .ok out
  else
    match outLength with
    | 0 => .error out
    | outLength + 1 => wrapPadding outLength (out ++ [0])

/-- **`wrapCommandAPDU`**: what it has written, where the number it returns is how much; an error is its -1. -/
def wrapCommandAPDU (command : Bytes) (outLength : ℕ) : Except Bytes Bytes :=
  if packetSize < 3 then .error []
  else if outLength < 7 then .error []
  else
    let out := packetHeader channel 0 ++ lengthBytes command.length
    let size := blockSize command.length (usub packetSize 7)
    if outLength - 7 < size then .error out
    else
      match wrapBlocks channel packetSize (outLength - 7 - size) 1 (command.drop size) (out ++ command.take size) with
      | .error out => .error out
      | .ok (outLength, out) => wrapPadding packetSize outLength out

end Wrap

section Unwrap

variable (channel packetSize : ℕ)

/-- The comparisons of a header with the data, up to the first that fails; `none` is a read behind the data. -/
def headerMatches : Bytes → Bytes → Option Bool
  | [], _ => some true
  | _ :: _, [] => none
  | h :: header, b :: data => if b ≠ h then some false else headerMatches header data

/-- `while (offsetOut != responseLength)`: the result, and what is in `out`. -/
def unwrapBlocks (responseLength sequenceIdx : ℕ) (data out : Bytes) : Option (ℤ × Bytes) :=
  if out.length = responseLength then some (out.length, out)
  else if _h : data = [] then some (0, out)
  else
    match headerMatches (packetHeader channel (sequenceIdx + 1)) data with
    | none => none
    | some false => some (-1, out)
    | some true =>
      let size := blockSize (responseLength - out.length) (usub packetSize 5)
      if (data.drop 5).length < size then some (0, out)
      else unwrapBlocks responseLength (sequenceIdx + 1) ((data.drop 5).drop size) (out ++ (data.drop 5).take size)
termination_by data.length
decreasing_by
  have hpos := List.length_pos_of_ne_nil _h
  rw [List.length_drop, List.length_drop]
  omega

def responseLength (data : Bytes) : ℕ := (data.getD 5 0).toNat * 256 + (data.getD 6 0).toNat

/-- **`unwrapReponseAPDU`**: what it returns, and what it has written; `none` is a read behind the data. -/
def unwrapReponseAPDU (data : Bytes) (outLength : ℕ) : Option (ℤ × Bytes) :=
  if data.length < 12 then some (0, [])
  else
    match headerMatches (packetHeader channel 0) data with
    | none => none
    | some false => some (-1, [])
    | some true =>
      if outLength < responseLength data then some (-1, [])
      else if data.length < 7 + responseLength data then some (0, [])
      else
        let size := blockSize (responseLength data) (usub packetSize 7)
        unwrapBlocks channel packetSize (responseLength data) 0 ((data.drop 7).drop size) ((data.drop 7).take size)

end Unwrap

/-! ### The format -/

def sized (message : Bytes) : Bytes := lengthBytes message.length ++ message

/-- **The packets of a message**, without what is behind the last block. -/
def report (channel packetSize : ℕ) (message : Bytes) : Bytes :=
  packets (packetHeader channel) (packetSize - 5) 0 (sized message)

/-- The bytes of the packets of a message of this length, up to the end of the last block. -/
def reportLength (packetSize n : ℕ) : ℕ := n + 2 + 5 * packetCount (packetSize - 5) (n + 2)

/-- The bytes of its packets, up to the end of the last one. -/
def reportSize (packetSize n : ℕ) : ℕ := packetCount (packetSize - 5) (n + 2) * packetSize

/-- What is missing of the last packet. -/
def reportPad (packetSize n : ℕ) : ℕ := reportSize packetSize n - reportLength packetSize n

/-- **The whole packets of a message**, with zeros behind the last block. -/
def wholeReport (channel packetSize : ℕ) (message : Bytes) : Bytes :=
  report channel packetSize message ++ List.replicate (reportPad packetSize message.length) 0

section Format

variable {packetSize : ℕ}

lemma usub_eq {a b : ℕ} (hle : b ≤ a) (hlt : a < 2 ^ 32) : usub a b = a - b := by
  unfold usub
  rw [Nat.add_comm a, Nat.add_sub_assoc hle, Nat.add_mod_left, Nat.mod_eq_of_lt (by omega)]

@[simp] lemma packetHeader_length (channel sequenceIdx : ℕ) : (packetHeader channel sequenceIdx).length = 5 := rfl

@[simp] lemma lengthBytes_length (n : ℕ) : (lengthBytes n).length = 2 := rfl

lemma sized_length (message : Bytes) : (sized message).length = message.length + 2 := by
  unfold sized
  rw [List.length_append, lengthBytes_length, Nat.add_comm]

lemma sized_ne_nil (message : Bytes) : sized message ≠ [] := List.cons_ne_nil _ _

lemma take_blockSize (message : Bytes) (room : ℕ) :
    message.take (blockSize message.length room) = message.take room := by
  unfold blockSize
  split
  · rfl
  · next h => rw [List.take_length, List.take_of_length_le (not_lt.mp h)]

lemma drop_blockSize (message : Bytes) (room : ℕ) :
    message.drop (blockSize message.length room) = message.drop room := by
  unfold blockSize
  split
  · rfl
  · next h => rw [List.drop_length, List.drop_of_length_le (not_lt.mp h)]

lemma blockSize_eq (left room : ℕ) : blockSize left room = min room left := by
  unfold blockSize
  split <;> omega

lemma report_eq (hp : 7 ≤ packetSize) (channel : ℕ) (message : Bytes) :
    report channel packetSize message = packetHeader channel 0 ++ (lengthBytes message.length ++
      (message.take (packetSize - 7) ++
        packets (packetHeader channel) (packetSize - 5) 1 (message.drop (packetSize - 7)))) := by
  have htwo : packetSize - 5 = (lengthBytes message.length).length + (packetSize - 7) := by
    rw [lengthBytes_length]
    omega
  have htake : (sized message).take (packetSize - 5) = lengthBytes message.length ++ message.take (packetSize - 7) := by
    rw [htwo]
    exact List.take_length_add_append _
  have hdrop : (sized message).drop (packetSize - 5) = message.drop (packetSize - 7) := by
    rw [htwo]
    exact List.drop_length_add_append _
  unfold report
  rw [packets_of_ne_nil (by omega) (sized_ne_nil message), htake, hdrop, List.append_assoc]

lemma report_length (hp : 7 ≤ packetSize) (channel : ℕ) (message : Bytes) :
    (report channel packetSize message).length = reportLength packetSize message.length := by
  unfold report reportLength
  rw [packets_length (by omega) (packetHeader_length channel), sized_length]

end Format

/-! ### Commands -/

section Commands

variable {packetSize : ℕ}

/-- The loop writes the packets of what is left of the command if they fit, and never more than fits. -/
lemma wrapBlocks_spec (hp : 7 ≤ packetSize) (hlt : packetSize < 2 ^ 32) (channel outLength sequenceIdx : ℕ)
    (command out : Bytes) :
    if (packets (packetHeader channel) (packetSize - 5) sequenceIdx command).length ≤ outLength then
      wrapBlocks channel packetSize outLength sequenceIdx command out =
        .ok (outLength - (packets (packetHeader channel) (packetSize - 5) sequenceIdx command).length,
          out ++ packets (packetHeader channel) (packetSize - 5) sequenceIdx command)
    else
      ∃ out', wrapBlocks channel packetSize outLength sequenceIdx command out = .error out' ∧
        out'.length ≤ out.length + outLength := by
  have hc : 0 < packetSize - 5 := by omega
  induction outLength using Nat.strong_induction_on generalizing sequenceIdx command out with
  | _ outLength ih =>
    by_cases hne : command = []
    · subst hne
      rw [packets_nil, List.length_nil, if_pos (Nat.zero_le _), wrapBlocks, if_pos rfl, List.append_nil, Nat.sub_zero]
    · have hlen : (packets (packetHeader channel) (packetSize - 5) sequenceIdx command).length =
          5 + ((command.take (packetSize - 5)).length +
            (packets (packetHeader channel) (packetSize - 5) (sequenceIdx + 1)
              (command.drop (packetSize - 5))).length) := by
        rw [packets_of_ne_nil hc hne, List.length_append, List.length_append, packetHeader_length]
      have hsize : blockSize command.length (packetSize - 5) = (command.take (packetSize - 5)).length := by
        rw [blockSize_eq, List.length_take]
      by_cases hfive : outLength < 5
      · rw [if_neg (by omega), wrapBlocks, if_neg hne, if_pos hfive]
        exact ⟨out, rfl, Nat.le_add_right _ _⟩
      · by_cases hblock : outLength - 5 < (command.take (packetSize - 5)).length
        · rw [if_neg (by omega), wrapBlocks, if_neg hne, if_neg hfive, usub_eq (by omega) hlt, hsize]
          refine ⟨_, if_pos hblock, ?_⟩
          rw [List.length_append, packetHeader_length]
          omega
        · have hstep : wrapBlocks channel packetSize outLength sequenceIdx command out =
              wrapBlocks channel packetSize (outLength - 5 - (command.take (packetSize - 5)).length)
                (sequenceIdx + 1) (command.drop (packetSize - 5))
                (out ++ packetHeader channel sequenceIdx ++ command.take (packetSize - 5)) := by
            rw [wrapBlocks, if_neg hne, if_neg hfive, usub_eq (by omega) hlt]
            dsimp only
            rw [take_blockSize, drop_blockSize, hsize, if_neg hblock]
          have hnext := ih (outLength - 5 - (command.take (packetSize - 5)).length) (by omega) (sequenceIdx + 1)
            (command.drop (packetSize - 5)) (out ++ packetHeader channel sequenceIdx ++ command.take (packetSize - 5))
          rw [hstep]
          split
          · next hfits =>
            rw [if_pos (by omega)] at hnext
            rw [hnext, hlen, packets_of_ne_nil hc hne, List.append_assoc, List.append_assoc, Nat.sub_sub, Nat.sub_sub]
          · next hfits =>
            rw [if_neg (by omega)] at hnext
            obtain ⟨out', heq, hle⟩ := hnext
            refine ⟨out', heq, hle.trans ?_⟩
            rw [List.length_append, List.length_append, packetHeader_length]
            omega

lemma mod_eq_zero_iff_pad {len pad count : ℕ} (hlen : len + pad = count * packetSize) (hpad : pad < packetSize) :
    len % packetSize = 0 ↔ pad = 0 := by
  constructor
  · intro h
    have hdvd : packetSize ∣ pad := by
      rw [← Nat.dvd_add_right (Nat.dvd_of_mod_eq_zero h), hlen]
      exact Nat.dvd_mul_left _ _
    exact Nat.eq_zero_of_dvd_of_lt hdvd hpad
  · rintro rfl
    rw [← Nat.add_zero len, hlen, Nat.mul_mod_left]

lemma wrapPadding_spec {count pad : ℕ} (out : Bytes) (hlen : out.length + pad = count * packetSize)
    (hpad : pad < packetSize) (outLength : ℕ) :
    if pad ≤ outLength then wrapPadding packetSize outLength out = .ok (out ++ List.replicate pad 0)
    else ∃ out', wrapPadding packetSize outLength out = .error out' ∧ out'.length ≤ out.length + outLength := by
  induction pad generalizing out outLength with
  | zero =>
    rw [if_pos (Nat.zero_le _), wrapPadding.eq_def, if_pos ((mod_eq_zero_iff_pad hlen hpad).mpr rfl),
      List.replicate_zero, List.append_nil]
  | succ pad ih =>
    have hmod : ¬ out.length % packetSize = 0 := fun h => Nat.succ_ne_zero pad ((mod_eq_zero_iff_pad hlen hpad).mp h)
    rw [wrapPadding.eq_def, if_neg hmod]
    cases outLength with
    | zero =>
      rw [if_neg (Nat.not_succ_le_zero pad)]
      exact ⟨out, rfl, le_rfl⟩
    | succ outLength =>
      have hnext := ih (out ++ [0]) (by rw [List.length_append, List.length_singleton]; omega) (by omega) outLength
      dsimp only
      split
      · next hfits =>
        rw [if_pos (Nat.le_of_succ_le_succ hfits)] at hnext
        rw [hnext, List.append_assoc, List.replicate_succ]
        rfl
      · next hfits =>
        rw [if_neg fun h => hfits (Nat.succ_le_succ h)] at hnext
        obtain ⟨out', heq, hle⟩ := hnext
        refine ⟨out', heq, hle.trans ?_⟩
        rw [List.length_append, List.length_singleton]
        omega

lemma reportPad_spec (hp : 7 ≤ packetSize) (channel : ℕ) (message : Bytes) :
    (report channel packetSize message).length + reportPad packetSize message.length =
        reportSize packetSize message.length ∧
      reportPad packetSize message.length < packetSize := by
  obtain ⟨c, rfl⟩ : ∃ c, packetSize = c + 5 := ⟨packetSize - 5, by omega⟩
  rw [report_length hp]
  unfold reportPad reportSize reportLength packetCount
  rw [Nat.add_sub_cancel]
  have hdiv := Nat.div_add_mod (message.length + 2 + (c - 1)) c
  have hmod := Nat.mod_lt (message.length + 2 + (c - 1)) (show 0 < c by omega)
  generalize (message.length + 2 + (c - 1)) / c = q at hdiv ⊢
  have hmul : q * (c + 5) = c * q + 5 * q := by ring
  omega

lemma wholeReport_length (hp : 7 ≤ packetSize) (channel : ℕ) (message : Bytes) :
    (wholeReport channel packetSize message).length = reportSize packetSize message.length := by
  rw [wholeReport, List.length_append, List.length_replicate, (reportPad_spec hp channel message).1]

/-- **A command is written if and only if its whole packets fit.** -/
lemma wrapCommandAPDU_spec (hp : 7 ≤ packetSize) (hlt : packetSize < 2 ^ 32) (channel : ℕ) (command : Bytes)
    (outLength : ℕ) :
    if reportSize packetSize command.length ≤ outLength then
      wrapCommandAPDU channel packetSize command outLength = .ok (wholeReport channel packetSize command)
    else ∃ out, wrapCommandAPDU channel packetSize command outLength = .error out ∧ out.length ≤ outLength := by
  obtain ⟨hsum, hpad⟩ := reportPad_spec hp channel command
  have hreport := report_eq hp channel command
  have hlen := congrArg List.length hreport
  simp only [List.length_append, packetHeader_length, lengthBytes_length] at hlen
  have hsize : blockSize command.length (packetSize - 7) = (command.take (packetSize - 7)).length := by
    rw [blockSize_eq, List.length_take]
  have hthree : ¬ packetSize < 3 := by omega
  by_cases hseven : outLength < 7
  · rw [if_neg (by omega), wrapCommandAPDU, if_neg hthree, if_pos hseven]
    exact ⟨[], rfl, Nat.zero_le _⟩
  by_cases hblock : outLength - 7 < (command.take (packetSize - 7)).length
  · rw [if_neg (by omega), wrapCommandAPDU, if_neg hthree, if_neg hseven, usub_eq hp hlt, hsize]
    refine ⟨_, if_pos hblock, ?_⟩
    rw [List.length_append, packetHeader_length, lengthBytes_length]
    omega
  have hstep : ∀ r, wrapBlocks channel packetSize (outLength - 7 - (command.take (packetSize - 7)).length) 1
      (command.drop (packetSize - 7))
      (packetHeader channel 0 ++ lengthBytes command.length ++ command.take (packetSize - 7)) = r →
        wrapCommandAPDU channel packetSize command outLength = r.bind fun w => wrapPadding packetSize w.1 w.2 := by
    intro r hr
    rw [wrapCommandAPDU, if_neg hthree, if_neg hseven, usub_eq hp hlt]
    dsimp only
    rw [take_blockSize, drop_blockSize, hsize, if_neg hblock, hr]
    cases r <;> rfl
  have hloop := wrapBlocks_spec hp hlt channel (outLength - 7 - (command.take (packetSize - 7)).length) 1
    (command.drop (packetSize - 7))
    (packetHeader channel 0 ++ lengthBytes command.length ++ command.take (packetSize - 7))
  split at hloop
  · next hfits =>
    have hfull : packetHeader channel 0 ++ lengthBytes command.length ++ command.take (packetSize - 7) ++
        packets (packetHeader channel) (packetSize - 5) 1 (command.drop (packetSize - 7)) =
          report channel packetSize command := by
      rw [hreport, List.append_assoc, List.append_assoc]
    have hzeros := wrapPadding_spec (report channel packetSize command) hsum hpad
      (outLength - 7 - (command.take (packetSize - 7)).length -
        (packets (packetHeader channel) (packetSize - 5) 1 (command.drop (packetSize - 7))).length)
    rw [hstep _ hloop, hfull]
    split at hzeros
    · next hroom =>
      rw [if_pos (by omega)]
      exact hzeros
    · next hroom =>
      rw [if_neg (by omega)]
      obtain ⟨out, heq, hle⟩ := hzeros
      exact ⟨out, heq, by omega⟩
  · next hfits =>
    obtain ⟨out, heq, hle⟩ := hloop
    rw [if_neg (by omega), hstep _ heq]
    refine ⟨out, rfl, hle.trans ?_⟩
    simp only [List.length_append, packetHeader_length, lengthBytes_length]
    omega

end Commands

/-! ### Responses -/

section Responses

variable {channel packetSize L sequenceIdx : ℕ} {message data out junk : Bytes}

lemma headerMatches_eq_true {header : Bytes} : headerMatches header data = some true ↔ header <+: data := by
  induction header generalizing data with
  | nil => exact iff_of_true rfl List.nil_prefix
  | cons h header ih =>
    cases data with
    | nil => exact iff_of_false (Option.some_ne_none true).symm (by simp)
    | cons b data =>
      rw [headerMatches, List.cons_prefix_cons, ← ih]
      split
      · next hne => exact iff_of_false (by simp) fun h => hne h.1.symm
      · next heq => exact (and_iff_right (not_not.mp heq).symm).symm

lemma headerMatches_ne_none {header : Bytes} (h : header.length ≤ data.length) : headerMatches header data ≠ none := by
  induction header generalizing data with
  | nil => exact Option.some_ne_none true
  | cons a header ih =>
    cases data with
    | nil => exact absurd h (Nat.not_succ_le_zero _)
    | cons b data =>
      rw [headerMatches]
      split
      · exact Option.some_ne_none false
      · exact ih (Nat.le_of_succ_le_succ h)

lemma unwrapBlocks_full (h : out.length = L) :
    unwrapBlocks channel packetSize L sequenceIdx data out = some ((L : ℤ), out) := by
  rw [unwrapBlocks, if_pos h, h]

lemma unwrapBlocks_packet (hp : 7 ≤ packetSize) (hlt : packetSize < 2 ^ 32) (hout : out.length ≠ L) (data : Bytes) :
    unwrapBlocks channel packetSize L sequenceIdx (packetHeader channel (sequenceIdx + 1) ++ data) out =
      if data.length < min (packetSize - 5) (L - out.length) then some (0, out)
      else unwrapBlocks channel packetSize L (sequenceIdx + 1) (data.drop (min (packetSize - 5) (L - out.length)))
        (out ++ data.take (min (packetSize - 5) (L - out.length))) := by
  have hmatch := headerMatches_eq_true.mpr (List.prefix_append (packetHeader channel (sequenceIdx + 1)) data)
  have hdrop : (packetHeader channel (sequenceIdx + 1) ++ data).drop 5 = data := rfl
  have hne : packetHeader channel (sequenceIdx + 1) ++ data ≠ [] := List.cons_ne_nil _ _
  rw [unwrapBlocks, if_neg hout, dif_neg hne, hmatch]
  dsimp only
  rw [usub_eq (by omega) hlt, blockSize_eq, hdrop]

/-- **What the loop does with the packets of a message**: it reads them, whatever is behind them. -/
lemma unwrapBlocks_packets (hp : 7 ≤ packetSize) (hlt : packetSize < 2 ^ 32) (hlen : out.length + message.length = L)
    (junk : Bytes) :
    unwrapBlocks channel packetSize L sequenceIdx
      (packets (packetHeader channel) (packetSize - 5) (sequenceIdx + 1) message ++ junk) out =
        some ((L : ℤ), out ++ message) := by
  generalize hn : message.length = n
  induction n using Nat.strong_induction_on generalizing message out sequenceIdx with
  | _ n ih =>
    by_cases hne : message = []
    · subst hne
      rw [List.append_nil]
      exact unwrapBlocks_full hlen
    · have hpos := List.length_pos_of_ne_nil hne
      have hmin : min (packetSize - 5) (L - out.length) = (message.take (packetSize - 5)).length := by
        rw [List.length_take]
        omega
      rw [packets_of_ne_nil (by omega) hne, List.append_assoc, unwrapBlocks_packet hp hlt (by omega), if_neg, hmin,
        List.append_assoc, List.drop_left, List.take_left, ih (n - (packetSize - 5)) (by omega) _ (by rw [List.length_drop, hn]),
        List.append_assoc, List.take_append_drop]
      · rw [List.length_append, List.length_take, List.length_drop]
        omega
      · rw [hmin, List.length_append, List.length_append]
        omega

lemma unwrapBlocks_more (hp : 7 ≤ packetSize) (hlt : packetSize < 2 ^ 32) (hlen : out.length + message.length < L)
    {k : ℕ} (hk : message.length = k * (packetSize - 5)) :
    unwrapBlocks channel packetSize L sequenceIdx
      (packets (packetHeader channel) (packetSize - 5) (sequenceIdx + 1) message) out = some (0, out ++ message) := by
  induction k generalizing message out sequenceIdx with
  | zero =>
    rw [Nat.zero_mul] at hk
    obtain rfl := List.length_eq_zero_iff.mp hk
    rw [packets_nil, unwrapBlocks, if_neg (by omega), dif_pos rfl, List.append_nil]
  | succ k ih =>
    rw [Nat.succ_mul] at hk
    have hne : message ≠ [] := List.ne_nil_of_length_pos (by omega)
    have hmin : min (packetSize - 5) (L - out.length) = (message.take (packetSize - 5)).length := by
      rw [List.length_take]
      omega
    rw [packets_of_ne_nil (by omega) hne, unwrapBlocks_packet hp hlt (by omega), if_neg, hmin, List.drop_left,
      List.take_left, ih, List.append_assoc, List.take_append_drop]
    · rw [List.length_append, List.length_take, List.length_drop]
      omega
    · rw [List.length_drop]
      omega
    · rw [hmin, List.length_append]
      omega

/-- **What can come of the loop.**  It has read a message, or wants more since there is not enough of it, or has met
a packet that is not the next one; it reads behind the data only where they are not whole packets. -/
inductive BlocksRead (channel packetSize L sequenceIdx : ℕ) (data out : Bytes) : Option (ℤ × Bytes) → Prop
  | done (message : Bytes) (hread : packets (packetHeader channel) (packetSize - 5) (sequenceIdx + 1) message <+: data)
      (hlen : out.length + message.length = L) :
      BlocksRead channel packetSize L sequenceIdx data out (some ((L : ℤ), out ++ message))
  | more (part : Bytes) (hlen : out.length + part.length < L)
      (hshort : data.length < (L - out.length) + 5 * packetCount (packetSize - 5) (L - out.length)) :
      BlocksRead channel packetSize L sequenceIdx data out (some (0, out ++ part))
  | failed (part : Bytes) (hlen : out.length + part.length < L) :
      BlocksRead channel packetSize L sequenceIdx data out (some (-1, out ++ part))
  | outside (hlen : out.length < L) (h : ¬ packetSize ∣ data.length) :
      BlocksRead channel packetSize L sequenceIdx data out none

/-- A whole block is read, and what comes of the packets behind it comes of all. -/
lemma BlocksRead.cons (hc : 7 ≤ packetSize) {r : Option (ℤ × Bytes)} (hmany : packetSize - 5 < L - out.length)
    (henough : packetSize - 5 ≤ data.length)
    (h : BlocksRead channel packetSize L (sequenceIdx + 1) (data.drop (packetSize - 5))
      (out ++ data.take (packetSize - 5)) r) :
    BlocksRead channel packetSize L sequenceIdx (packetHeader channel (sequenceIdx + 1) ++ data) out r := by
  have hcount := packetCount_pos (show 0 < packetSize - 5 by omega) (show 0 < L - out.length by omega)
  have htake : (data.take (packetSize - 5)).length = packetSize - 5 := by
    rw [List.length_take]
    omega
  cases h with
  | done message hread hlen =>
    rw [List.length_append, htake] at hlen
    rw [List.append_assoc]
    refine .done _ ?_ (by rw [List.length_append, htake, ← Nat.add_assoc, hlen])
    have hne : data.take (packetSize - 5) ++ message ≠ [] :=
      List.append_ne_nil_of_left_ne_nil (List.ne_nil_of_length_pos (by omega)) _
    obtain ⟨junk, hjunk⟩ := hread
    refine ⟨junk, ?_⟩
    rw [packets_of_ne_nil (by omega) hne, List.take_left' htake, List.drop_left' htake, List.append_assoc,
      List.append_assoc, hjunk, List.take_append_drop]
  | more part hlen hshort =>
    rw [List.length_append, htake] at hlen
    rw [List.length_append, htake, List.length_drop, ← Nat.sub_sub] at hshort
    rw [List.append_assoc]
    refine .more _ (by rw [List.length_append, htake]; omega) ?_
    rw [List.length_append, packetHeader_length]
    omega
  | failed part hlen =>
    rw [List.length_append, htake] at hlen
    rw [List.append_assoc]
    exact .failed _ (by rw [List.length_append, htake]; omega)
  | outside hlen hnot =>
    refine .outside (by omega) fun hdvd => hnot ?_
    rw [List.length_append, packetHeader_length] at hdvd
    rw [List.length_drop, show data.length - (packetSize - 5) = 5 + data.length - packetSize by omega]
    exact Nat.dvd_sub hdvd (Nat.dvd_refl _)

lemma unwrapBlocks_read (hp : 7 ≤ packetSize) (hlt : packetSize < 2 ^ 32) (channel sequenceIdx : ℕ) (data out : Bytes)
    (hlen : out.length ≤ L) :
    BlocksRead channel packetSize L sequenceIdx data out
      (unwrapBlocks channel packetSize L sequenceIdx data out) := by
  have hc : 0 < packetSize - 5 := by omega
  generalize hn : data.length = n
  induction n using Nat.strong_induction_on generalizing data out sequenceIdx with
  | _ n ih =>
    rcases hlen.eq_or_lt with hfull | hless
    · have hread : packets (packetHeader channel) (packetSize - 5) (sequenceIdx + 1) [] <+: data := by
        rw [packets_nil]
        exact List.nil_prefix
      have hdone := BlocksRead.done [] hread hfull
      rw [List.append_nil] at hdone
      rwa [unwrapBlocks_full hfull]
    have hcount := packetCount_pos hc (Nat.sub_pos_of_lt hless)
    by_cases hdata : data = []
    · have hmore : BlocksRead channel packetSize L sequenceIdx data out (some (0, out ++ [])) :=
        .more [] hless (by rw [hdata, List.length_nil]; omega)
      rw [List.append_nil] at hmore
      rwa [unwrapBlocks, if_neg hless.ne, dif_pos hdata]
    cases hmatch : headerMatches (packetHeader channel (sequenceIdx + 1)) data with
    | none =>
      rw [unwrapBlocks, if_neg hless.ne, dif_neg hdata, hmatch]
      refine .outside hless fun hdvd => ?_
      have hle := Nat.le_of_dvd (List.length_pos_of_ne_nil hdata) hdvd
      exact headerMatches_ne_none (by rw [packetHeader_length]; omega) hmatch
    | some ok =>
      cases ok with
      | false =>
        rw [unwrapBlocks, if_neg hless.ne, dif_neg hdata, hmatch]
        have hfailed : BlocksRead channel packetSize L sequenceIdx data out (some (-1, out ++ [])) := .failed [] hless
        rwa [List.append_nil] at hfailed
      | true =>
        obtain ⟨rest, rfl⟩ := headerMatches_eq_true.mp hmatch
        rw [List.length_append, packetHeader_length] at hn
        rw [unwrapBlocks_packet hp hlt hless.ne]
        split
        · next hshort =>
          have hmore : BlocksRead channel packetSize L sequenceIdx (packetHeader channel (sequenceIdx + 1) ++ rest) out
              (some (0, out ++ [])) :=
            .more [] hless (by rw [List.length_append, packetHeader_length]; omega)
          rwa [List.append_nil] at hmore
        · next henough =>
          rcases Nat.lt_or_ge (packetSize - 5) (L - out.length) with hmany | hlast
          · rw [Nat.min_eq_left hmany.le] at henough ⊢
            refine .cons hp hmany (not_lt.mp henough) ?_
            refine ih (n - packetSize) (by omega) (sequenceIdx + 1) _ _ ?_ (by rw [List.length_drop]; omega)
            rw [List.length_append, List.length_take]
            omega
          · rw [Nat.min_eq_right hlast] at henough ⊢
            have htake : (rest.take (L - out.length)).length = L - out.length := by
              rw [List.length_take]
              omega
            rw [unwrapBlocks_full (by rw [List.length_append, htake]; omega)]
            refine .done _ ?_ (by rw [htake]; omega)
            rw [packets_of_ne_nil hc (List.ne_nil_of_length_pos (by omega)), List.prefix_append_right_inj,
              List.take_of_length_le (by omega), List.drop_of_length_le (by omega), packets_nil, List.append_nil]
            exact List.take_prefix _ _

lemma beNat_lengthBytes {n : ℕ} (h : n < 2 ^ 16) :
    (UInt8.ofNat (n / 256)).toNat * 256 + (UInt8.ofNat n).toNat = n := by
  rw [UInt8.toNat_ofNat', UInt8.toNat_ofNat']
  omega

lemma lengthBytes_eq (b₁ b₂ : UInt8) : lengthBytes (b₁.toNat * 256 + b₂.toNat) = [b₁, b₂] := by
  have h₁ := b₁.toNat_lt
  have h₂ := b₂.toNat_lt
  have hhigh : UInt8.ofNat ((b₁.toNat * 256 + b₂.toNat) / 256) = b₁ := by
    apply UInt8.toNat_inj.mp
    rw [UInt8.toNat_ofNat']
    omega
  have hlow : UInt8.ofNat (b₁.toNat * 256 + b₂.toNat) = b₂ := by
    apply UInt8.toNat_inj.mp
    rw [UInt8.toNat_ofNat']
    omega
  rw [lengthBytes, hhigh, hlow]

lemma exists_lengthBytes (h : 2 ≤ data.length) : ∃ n < 2 ^ 16, ∃ rest, data = lengthBytes n ++ rest := by
  rcases data with _ | ⟨b₁, _ | ⟨b₂, rest⟩⟩
  · exact absurd h (by simp)
  · exact absurd h (by simp)
  · have h₁ := b₁.toNat_lt
    have h₂ := b₂.toNat_lt
    exact ⟨b₁.toNat * 256 + b₂.toNat, by omega, rest, by rw [lengthBytes_eq]; rfl⟩

lemma responseLength_header (channel : ℕ) {n : ℕ} (hn : n < 2 ^ 16) (data : Bytes) :
    responseLength (packetHeader channel 0 ++ (lengthBytes n ++ data)) = n := beNat_lengthBytes hn

lemma unwrapReponseAPDU_header (hp : 7 ≤ packetSize) (hlt : packetSize < 2 ^ 32) {n : ℕ} (hn : n < 2 ^ 16)
    {outLength : ℕ} (hroom : n ≤ outLength) (htwelve : 5 ≤ data.length) :
    unwrapReponseAPDU channel packetSize (packetHeader channel 0 ++ (lengthBytes n ++ data)) outLength =
      if data.length < n then some (0, [])
      else unwrapBlocks channel packetSize n 0 (data.drop (min (packetSize - 7) n))
        (data.take (min (packetSize - 7) n)) := by
  have hmatch := headerMatches_eq_true.mpr (List.prefix_append (packetHeader channel 0) (lengthBytes n ++ data))
  have hlen : (packetHeader channel 0 ++ (lengthBytes n ++ data)).length = 7 + data.length := by
    rw [List.length_append, List.length_append, packetHeader_length, lengthBytes_length, ← Nat.add_assoc]
  have hdrop : (packetHeader channel 0 ++ (lengthBytes n ++ data)).drop 7 = data := rfl
  rw [unwrapReponseAPDU, if_neg (by omega), hmatch]
  dsimp only
  rw [responseLength_header channel hn, if_neg hroom.not_gt, hlen, hdrop, usub_eq hp hlt, blockSize_eq]
  by_cases h : data.length < n
  · rw [if_pos h, if_pos (by omega)]
  · rw [if_neg h, if_neg (by omega)]

/-- A response that does not fit is refused from its first packet. -/
lemma unwrapReponseAPDU_refused (channel packetSize : ℕ) {n outLength : ℕ} (hn : n < 2 ^ 16) (hroom : outLength < n)
    (htwelve : 5 ≤ data.length) :
    unwrapReponseAPDU channel packetSize (packetHeader channel 0 ++ (lengthBytes n ++ data)) outLength =
      some (-1, []) := by
  have hmatch := headerMatches_eq_true.mpr (List.prefix_append (packetHeader channel 0) (lengthBytes n ++ data))
  have hlen : (packetHeader channel 0 ++ (lengthBytes n ++ data)).length = 7 + data.length := by
    rw [List.length_append, List.length_append, packetHeader_length, lengthBytes_length, ← Nat.add_assoc]
  rw [unwrapReponseAPDU, if_neg (by omega), hmatch]
  dsimp only
  rw [responseLength_header channel hn, if_pos hroom]

/-- **A response is read from its packets**, whatever is behind them. -/
lemma unwrapReponseAPDU_report (hp : 7 ≤ packetSize) (hlt : packetSize < 2 ^ 32) {outLength : ℕ}
    (hmessage : message.length < 2 ^ 16) (hroom : message.length ≤ outLength)
    (htwelve : 12 ≤ (report channel packetSize message ++ junk).length) :
    unwrapReponseAPDU channel packetSize (report channel packetSize message ++ junk) outLength =
      some ((message.length : ℤ), message) := by
  rw [report_eq hp, List.append_assoc, List.append_assoc, List.append_assoc] at htwelve ⊢
  simp only [List.length_append, packetHeader_length, lengthBytes_length] at htwelve
  have hmin : min (packetSize - 7) message.length = (message.take (packetSize - 7)).length := by
    rw [List.length_take]
  have hrest := congrArg List.length (List.take_append_drop (packetSize - 7) message)
  rw [List.length_append] at hrest
  rw [unwrapReponseAPDU_header hp hlt hmessage hroom (by simp only [List.length_append]; omega), if_neg, hmin,
    List.drop_left, List.take_left, unwrapBlocks_packets hp hlt hrest, List.take_append_drop]
  have hle := packets_length (show 0 < packetSize - 5 by omega) (packetHeader_length channel) 1
    (message.drop (packetSize - 7))
  simp only [List.length_append]
  omega

/-- **What can come of the data.**  A response is read, or there is not enough of it, or a packet is not the next one
or the response does not fit; it reads behind the data only where they are not whole packets. -/
inductive ResponseRead (channel packetSize : ℕ) (data : Bytes) (outLength : ℕ) : Option (ℤ × Bytes) → Prop
  | response (message : Bytes) (hread : report channel packetSize message <+: data)
      (hlen : message.length = responseLength data) (hroom : message.length ≤ outLength) :
      ResponseRead channel packetSize data outLength (some ((message.length : ℤ), message))
  | more (out : Bytes) (hout : out.length ≤ outLength)
      (hshort : data.length < 12 ∨
        responseLength data ≤ outLength ∧ data.length < reportLength packetSize (responseLength data)) :
      ResponseRead channel packetSize data outLength (some (0, out))
  | failed (out : Bytes) (hout : out.length ≤ outLength) :
      ResponseRead channel packetSize data outLength (some (-1, out))
  | outside (h : ¬ packetSize ∣ data.length) : ResponseRead channel packetSize data outLength none

lemma unwrapReponseAPDU_read (hp : 7 ≤ packetSize) (hlt : packetSize < 2 ^ 32) (channel : ℕ) (data : Bytes)
    (outLength : ℕ) :
    ResponseRead channel packetSize data outLength (unwrapReponseAPDU channel packetSize data outLength) := by
  by_cases htwelve : data.length < 12
  · rw [unwrapReponseAPDU, if_pos htwelve]
    exact .more [] (Nat.zero_le _) (.inl htwelve)
  cases hmatch : headerMatches (packetHeader channel 0) data with
  | none => exact absurd hmatch (headerMatches_ne_none (by rw [packetHeader_length]; omega))
  | some ok =>
    cases ok with
    | false =>
      rw [unwrapReponseAPDU, if_neg htwelve, hmatch]
      exact .failed [] (Nat.zero_le _)
    | true =>
      by_cases hroom : outLength < responseLength data
      · rw [unwrapReponseAPDU, if_neg htwelve, hmatch]
        dsimp only
        rw [if_pos hroom]
        exact .failed [] (Nat.zero_le _)
      have hroom := not_lt.mp hroom
      obtain ⟨rest, rfl⟩ := headerMatches_eq_true.mp hmatch
      rw [List.length_append, packetHeader_length] at htwelve
      obtain ⟨n, hn, rest, rfl⟩ := exists_lengthBytes (show 2 ≤ rest.length by omega)
      rw [List.length_append, lengthBytes_length] at htwelve
      have hL := responseLength_header channel hn rest
      rw [hL] at hroom
      rw [unwrapReponseAPDU_header hp hlt hn hroom (by omega)]
      have hcount := packetCount_pos (show 0 < packetSize - 5 by omega) (show 0 < n + 2 by omega)
      rw [show n + 2 - (packetSize - 5) = n - (packetSize - 7) by omega] at hcount
      have hlen : (packetHeader channel 0 ++ (lengthBytes n ++ rest)).length = 7 + rest.length := by
        rw [List.length_append, List.length_append, packetHeader_length, lengthBytes_length, ← Nat.add_assoc]
      split
      · next hshort =>
        refine .more [] (Nat.zero_le _) (.inr ⟨hL.trans_le hroom, ?_⟩)
        rw [hL, hlen, reportLength]
        omega
      · next henough =>
        have htake : (rest.take (min (packetSize - 7) n)).length = min (packetSize - 7) n := by
          rw [List.length_take]
          omega
        have hread := unwrapBlocks_read hp hlt channel 0 (rest.drop (min (packetSize - 7) n))
          (rest.take (min (packetSize - 7) n)) (show _ ≤ n by omega)
        generalize unwrapBlocks channel packetSize n 0 (rest.drop (min (packetSize - 7) n))
          (rest.take (min (packetSize - 7) n)) = r at hread ⊢
        cases hread with
        | done message hread hmessage =>
          have hfull : (rest.take (min (packetSize - 7) n) ++ message).length = n := by
            rw [List.length_append, hmessage]
          have hsplit : (rest.take (min (packetSize - 7) n) ++ message).take (packetSize - 7) =
                rest.take (min (packetSize - 7) n) ∧
              (rest.take (min (packetSize - 7) n) ++ message).drop (packetSize - 7) = message := by
            rcases Nat.lt_or_ge n (packetSize - 7) with hone | hmany
            · obtain rfl : message = [] := List.length_eq_zero_iff.mp (by omega)
              rw [List.append_nil, List.take_of_length_le (by omega), List.drop_of_length_le (by omega)]
              exact ⟨rfl, rfl⟩
            · rw [Nat.min_eq_left hmany] at htake ⊢
              exact ⟨List.take_left' htake, List.drop_left' htake⟩
          obtain ⟨junk, hjunk⟩ := hread
          have hresponse : ResponseRead channel packetSize (packetHeader channel 0 ++ (lengthBytes n ++ rest)) outLength
              (some (((rest.take (min (packetSize - 7) n) ++ message).length : ℤ),
                rest.take (min (packetSize - 7) n) ++ message)) := by
            refine .response _ ⟨junk, ?_⟩ (hfull.trans hL.symm) (hfull.trans_le hroom)
            rw [report_eq hp, hsplit.1, hsplit.2, hfull]
            simp only [List.append_assoc]
            rw [hjunk, List.take_append_drop]
          rwa [hfull] at hresponse
        | more part hpart hshort =>
          refine .more _ (by rw [List.length_append]; omega) (.inr ⟨hL.trans_le hroom, ?_⟩)
          rw [List.length_drop, htake, show n - min (packetSize - 7) n = n - (packetSize - 7) by omega] at hshort
          rw [hL, hlen, reportLength]
          omega
        | failed part hpart => exact .failed _ (by rw [List.length_append]; omega)
        | outside hless hnot =>
          refine .outside fun hdvd => hnot ?_
          rw [htake] at hless
          rw [hlen] at hdvd
          rw [List.length_drop, show rest.length - min (packetSize - 7) n = 7 + rest.length - packetSize by omega]
          exact Nat.dvd_sub hdvd (Nat.dvd_refl _)

/-- Of the first packets of a message, but not all of them, it wants more. -/
lemma unwrapReponseAPDU_more (hp : 12 ≤ packetSize) (hlt : packetSize < 2 ^ 32) {outLength : ℕ}
    (hmessage : message.length < 2 ^ 16) (hroom : message.length ≤ outLength) {k : ℕ}
    (hk : k < packetCount (packetSize - 5) (message.length + 2)) :
    ∃ out, unwrapReponseAPDU channel packetSize ((report channel packetSize message).take (k * packetSize)) outLength =
      some (0, out) ∧ out <+: message := by
  have hc : 0 < packetSize - 5 := by omega
  have hblocks : k * (packetSize - 5) < message.length + 2 := by
    unfold packetCount at hk
    have hle := (Nat.le_div_iff_mul_le hc).mp (Nat.succ_le_of_lt hk)
    rw [Nat.succ_mul] at hle
    omega
  have htake := take_packets hc (packetHeader_length channel) k 0 (sized message)
  rw [show 5 + (packetSize - 5) = packetSize by omega] at htake
  have hreport : (report channel packetSize message).take (k * packetSize) =
      packets (packetHeader channel) (packetSize - 5) 0 ((sized message).take (k * (packetSize - 5))) := htake
  rw [hreport]
  rcases Nat.eq_zero_or_pos k with rfl | hpos
  · rw [Nat.zero_mul, List.take_zero, packets_nil, unwrapReponseAPDU, if_pos (by decide)]
    exact ⟨[], rfl, List.nil_prefix⟩
  obtain ⟨k, rfl⟩ := Nat.exists_eq_add_one.mpr hpos
  rw [Nat.succ_mul] at hblocks ⊢
  -- the first packet has the length and the front of the message
  have hpart : (sized message).take (k * (packetSize - 5) + (packetSize - 5)) =
      lengthBytes message.length ++ message.take (k * (packetSize - 5) + (packetSize - 7)) := by
    rw [show k * (packetSize - 5) + (packetSize - 5) =
      (lengthBytes message.length).length + (k * (packetSize - 5) + (packetSize - 7)) by
        rw [lengthBytes_length]; omega]
    exact List.take_length_add_append _
  have hfirst : (lengthBytes message.length ++ message.take (k * (packetSize - 5) + (packetSize - 7))).take
      (packetSize - 5) = lengthBytes message.length ++ message.take (packetSize - 7) := by
    rw [show packetSize - 5 = (lengthBytes message.length).length + (packetSize - 7) by
      rw [lengthBytes_length]; omega, List.take_length_add_append, List.take_take, Nat.min_eq_left (by omega)]
  have hbehind : (lengthBytes message.length ++ message.take (k * (packetSize - 5) + (packetSize - 7))).drop
      (packetSize - 5) = (message.drop (packetSize - 7)).take (k * (packetSize - 5)) := by
    have htwo : packetSize - 5 = (lengthBytes message.length).length + (packetSize - 7) := by
      rw [lengthBytes_length]
      omega
    rw [htwo, List.drop_length_add_append, ← htwo, List.drop_take, Nat.add_sub_cancel_right]
  have hrest : ((message.drop (packetSize - 7)).take (k * (packetSize - 5))).length = k * (packetSize - 5) := by
    rw [List.length_take, List.length_drop]
    omega
  have hfront : (message.take (packetSize - 7)).length = packetSize - 7 := by
    rw [List.length_take]
    omega
  have hne : lengthBytes message.length ++ message.take (k * (packetSize - 5) + (packetSize - 7)) ≠ [] :=
    List.cons_ne_nil _ _
  rw [hpart, packets_of_ne_nil hc hne, hfirst, hbehind, List.append_assoc,
    unwrapReponseAPDU_header (by omega) hlt hmessage hroom (by rw [List.length_append]; omega)]
  split
  · exact ⟨[], rfl, List.nil_prefix⟩
  · refine ⟨message.take (packetSize - 7) ++ (message.drop (packetSize - 7)).take (k * (packetSize - 5)), ?_, ?_⟩
    · have hmin : min (packetSize - 7) message.length = (message.take (packetSize - 7)).length := by
        rw [List.length_take]
      rw [hmin, List.drop_left, List.take_left]
      exact unwrapBlocks_more (by omega) hlt (by rw [hfront, hrest]; omega) hrest
    · rw [← List.take_add]
      exact List.take_prefix _ _

/-- **The data carry the message**: they are its whole packets, `unwrapReponseAPDU` wants more of any of them but all,
and gets the message from all. -/
structure Carries (channel packetSize : ℕ) (message data : Bytes) : Prop where
  size : data.length = reportSize packetSize message.length
  part : ∀ n ≥ message.length, ∀ k, k * packetSize < data.length →
    ∃ out, unwrapReponseAPDU channel packetSize (data.take (k * packetSize)) n = some (0, out) ∧ out <+: message
  all : ∀ n ≥ message.length,
    unwrapReponseAPDU channel packetSize data n = some ((message.length : ℤ), message)

lemma carries_wholeReport (hp : 12 ≤ packetSize) (hlt : packetSize < 2 ^ 32) (channel : ℕ)
    (hmessage : message.length < 2 ^ 16) :
    Carries channel packetSize message (wholeReport channel packetSize message) := by
  have hsize := wholeReport_length (show 7 ≤ packetSize by omega) channel message
  obtain ⟨hsum, hpad⟩ := reportPad_spec (show 7 ≤ packetSize by omega) channel message
  refine ⟨hsize, fun n hn k hk => ?_, fun n hn => ?_⟩
  · rw [hsize] at hk
    have hcount := Nat.lt_of_mul_lt_mul_right hk
    have hle : (k + 1) * packetSize ≤ reportSize packetSize message.length := Nat.mul_le_mul_right _ hcount
    rw [Nat.succ_mul] at hle
    rw [wholeReport, List.take_append_of_le_length (by omega)]
    exact unwrapReponseAPDU_more hp hlt hmessage hn hcount
  · have hone := packetCount_pos (show 0 < packetSize - 5 by omega) (show 0 < message.length + 2 by omega)
    have hle : 1 * packetSize ≤ reportSize packetSize message.length := Nat.mul_le_mul_right _ (by omega)
    refine unwrapReponseAPDU_report (by omega) hlt hmessage hn (le_trans ?_ hsize.ge)
    omega

/-- **A command that is written is read again.**  `wrapCommandAPDU` writes a command if and only if its whole packets
fit, and what it writes carries the command. -/
theorem wrap_unwrap (hp : 12 ≤ packetSize) (hlt : packetSize < 2 ^ 32) (channel : ℕ) {command : Bytes}
    (hcommand : command.length < 2 ^ 16) (outLength : ℕ) :
    ((∃ data, wrapCommandAPDU channel packetSize command outLength = .ok data) ↔
        reportSize packetSize command.length ≤ outLength) ∧
      ∀ data, wrapCommandAPDU channel packetSize command outLength = .ok data →
        Carries channel packetSize command data := by
  have hspec := wrapCommandAPDU_spec (show 7 ≤ packetSize by omega) hlt channel command outLength
  split at hspec
  · next hfits =>
    refine ⟨iff_of_true ⟨_, hspec⟩ hfits, fun data hdata => ?_⟩
    obtain rfl := Except.ok.inj (hspec.symm.trans hdata)
    exact carries_wholeReport hp hlt channel hcommand
  · next hfits =>
    obtain ⟨out, heq, -⟩ := hspec
    refine ⟨iff_of_false (fun ⟨data, hdata⟩ => ?_) hfits, fun data hdata => ?_⟩ <;>
    · rw [heq] at hdata
      cases hdata

/-- A command of 100 bytes in two packets of 64. -/
theorem wrap_unwrap_two :
    ((∃ data, wrapCommandAPDU 0x0101 64 (List.replicate 100 7) 400 = .ok data) ↔
        reportSize 64 (List.replicate 100 (7 : UInt8)).length ≤ 400) ∧
      ∀ data, wrapCommandAPDU 0x0101 64 (List.replicate 100 7) 400 = .ok data →
        Carries 0x0101 64 (List.replicate 100 7) data :=
  wrap_unwrap (by decide) (by decide) 0x0101 (by rw [List.length_replicate]; decide) 400

/-- **What `unwrapReponseAPDU` owes its caller**: it writes no more than there is room for, it returns a message just
when the data begin with the packets of the message and it fits, and zero only when more packets are needed or the
first one declares nothing. -/
structure Unwraps (channel packetSize : ℕ) (data : Bytes) (outLength : ℕ) (result : ℤ) (out : Bytes) : Prop where
  inside : out.length ≤ outLength
  low : -1 ≤ result
  high : result ≤ outLength
  message : ∀ message, message ≠ [] → (result = message.length ∧ out = message ↔
    report channel packetSize message <+: data ∧ message.length < 2 ^ 16 ∧ message.length ≤ outLength)
  more : result = 0 → data.length < reportSize packetSize (responseLength data) ∨ responseLength data = 0

/-- **What is accepted is well formed, and all that is well formed is accepted**, of whole packets, whatever is in
them; and none is read behind the last. -/
theorem unwrapReponseAPDU_unwraps (hp : 12 ≤ packetSize) (hlt : packetSize < 2 ^ 32) (channel : ℕ) {data : Bytes}
    (hwhole : packetSize ∣ data.length) (outLength : ℕ) :
    ∃ (result : ℤ) (out : Bytes), unwrapReponseAPDU channel packetSize data outLength = some (result, out) ∧
      Unwraps channel packetSize data outLength result out := by
  have hsize : ∀ n, reportLength packetSize n ≤ reportSize packetSize n := by
    intro n
    obtain ⟨hsum, -⟩ := reportPad_spec (show 7 ≤ packetSize by omega) channel (List.replicate n 0)
    rw [report_length (by omega), List.length_replicate] at hsum
    omega
  have hread := unwrapReponseAPDU_read (show 7 ≤ packetSize by omega) hlt channel data outLength
  -- the packets of a message are read as the message
  have hfrom : ∀ message, message ≠ [] → report channel packetSize message <+: data → message.length < 2 ^ 16 →
      message.length ≤ outLength →
        unwrapReponseAPDU channel packetSize data outLength = some ((message.length : ℤ), message) := by
    rintro message hne ⟨junk, rfl⟩ hmessage hroom
    refine unwrapReponseAPDU_report (by omega) hlt hmessage hroom ?_
    have hpos : 0 < (report channel packetSize message ++ junk).length := by
      rw [List.length_append, report_length (by omega), reportLength]
      omega
    have hle := Nat.le_of_dvd hpos hwhole
    omega
  have hlow : ∀ n : ℕ, (0 : ℤ) ≤ n := Int.natCast_nonneg
  generalize hr : unwrapReponseAPDU channel packetSize data outLength = r at hread hfrom
  cases hread with
  | response message hread hlen hroom =>
    refine ⟨_, _, rfl, hroom, by omega, by exact_mod_cast hroom, fun message' hne => ⟨?_, ?_⟩, fun hzero => ?_⟩
    · rintro ⟨-, rfl⟩
      have hb₁ := (data.getD 5 0).toNat_lt
      have hb₂ := (data.getD 6 0).toNat_lt
      refine ⟨hread, ?_, hroom⟩
      rw [hlen, responseLength]
      omega
    · rintro ⟨hreport, hlt', hroom'⟩
      obtain ⟨hresult, hout⟩ := Prod.mk.inj (Option.some.inj (hfrom message' hne hreport hlt' hroom'))
      exact ⟨hresult, hout⟩
    · exact .inr (by omega)
  | more out hout hshort =>
    refine ⟨0, out, rfl, hout, by decide, hlow _, fun message hne => ⟨?_, ?_⟩, fun _ => ?_⟩
    · rintro ⟨hresult, -⟩
      have hpos := List.length_pos_of_ne_nil hne
      omega
    · rintro ⟨hreport, hlt', hroom'⟩
      obtain ⟨hresult, hout⟩ := Prod.mk.inj (Option.some.inj (hfrom message hne hreport hlt' hroom'))
      exact ⟨hresult, hout⟩
    · have hone := packetCount_pos (show 0 < packetSize - 5 by omega) (show 0 < responseLength data + 2 by omega)
      have hle : 1 * packetSize ≤ reportSize packetSize (responseLength data) := Nat.mul_le_mul_right _ (by omega)
      have hmax := hsize (responseLength data)
      rcases hshort with hshort | ⟨-, hshort⟩
      · left
        omega
      · left
        omega
  | failed out hout =>
    refine ⟨-1, out, rfl, hout, le_rfl, by have := hlow outLength; omega, fun message hne => ⟨?_, ?_⟩, fun h => ?_⟩
    · rintro ⟨hresult, -⟩
      have hpos := hlow message.length
      omega
    · rintro ⟨hreport, hlt', hroom'⟩
      obtain ⟨hresult, hout⟩ := Prod.mk.inj (Option.some.inj (hfrom message hne hreport hlt' hroom'))
      exact ⟨hresult, hout⟩
    · exact absurd h (by decide)
  | outside hnot => exact absurd hwhole hnot

/-- A packet that declares 100 bytes. -/
theorem unwrapReponseAPDU_unwraps_part :
    ∃ (result : ℤ) (out : Bytes),
      unwrapReponseAPDU 0x0101 64 ([1, 1, 5, 0, 0, 0, 100] ++ List.replicate 57 7) 120 = some (result, out) ∧
        Unwraps 0x0101 64 ([1, 1, 5, 0, 0, 0, 100] ++ List.replicate 57 7) 120 result out :=
  unwrapReponseAPDU_unwraps (by decide) (by decide) 0x0101 ⟨1, rfl⟩ 120

end Responses

end Libaergo.Ledger
