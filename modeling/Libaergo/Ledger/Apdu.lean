import Libaergo.Lib.Bytes
import Libaergo.Lib.Runs

/-!
# Commands to the Ledger (`ledger/ledger-api.c`)

`ledger_send_apdu` cuts its data into chunks of 250 bytes at most and sends them one after the other, flagged as
the first and the last one.  The device answers each with a status word and may have data in its answer: 0x9001
makes the function begin again, any other than 0x9000 ends it, and so does an answer with data.

What `sendApduDongle` returns is a parameter, which may depend on all that was sent.  Lengths are below 2^31, so
that no `int` overflows; the loops are bounded by a number of passes.
-/

namespace Libaergo.Ledger

open Lib

/-- What `sendApduDongle` comes to: a failure of the transport, or the response of the device. -/
inductive Reply where
  | failed (result : ℤ) (h : result < 0)
  | response (data : Bytes) (sw : UInt16)

/-- The library and the device: what `initDongle` returns and writes to `error`, whether a device is found, and
its reply to the last of the commands that were sent. -/
structure Dongle where
  init : ℤ
  initError : String
  found : Bool
  send : List Bytes → Reply

def swOk : UInt16 := 0x9000

/-- The device wants to begin again. -/
def swRestart : UInt16 := 0x9001

def apduP1First : UInt8 := 0x01

def apduP1Last : UInt8 := 0x02

section Send

variable (D : Dongle) (apduCla apduIns apduP1 : UInt8) (data : Bytes)

/-- `len` -/
def chunkLength (offset : ℕ) : ℕ := if 250 < data.length - offset then 250 else data.length - offset

def p1 (offset : ℕ) : UInt8 :=
  if apduP1 ≠ 0 then apduP1
  else
    (if offset = 0 then apduP1First else 0) |||
      (if offset + chunkLength data offset = data.length then apduP1Last else 0)

/-- The request packet for the chunk at this offset. -/
def packet (offset : ℕ) : Bytes :=
  [apduCla, apduIns, p1 apduP1 data offset, 0, UInt8.ofNat (chunkLength data offset)] ++
    (data.drop offset).take (chunkLength data offset)

/-- The variables of `ledger_send_apdu`, and what was sent so far. -/
structure Exchange where
  sent : List Bytes
  offset : ℕ
  result : ℤ
  sw : ℤ
  out : Bytes

/-- How the inner loop is left: by its end or a `break`, or to `loc_exit`. -/
inductive Left where
  | loop (e : Exchange)
  | exit (e : Exchange)

/-- `while (offset < datalen)`, at most so many times. -/
def sendChunks : ℕ → Exchange → Option Left
  | 0, _ => none
  | k + 1, e =>
    if e.offset < data.length then
      let e := { e with sent := e.sent ++ [packet apduCla apduIns apduP1 data e.offset] }
      match D.send e.sent with
      | .failed result _ => some (.exit { e with result := result })
      | .response out sw =>
        let e := { e with result := out.length, sw := sw.toNat, out := out }
        if sw = swRestart then some (.loop { e with result := 0 })
        else if sw ≠ swOk then some (.exit e)
        else if 0 < e.result then some (.loop e)
        else sendChunks k { e with offset := e.offset + chunkLength data e.offset }
    else some (.loop e)

/-- `while (result == 0)`, at most so many times. -/
def sendAll (k : ℕ) : ℕ → Exchange → Option Exchange
  | 0, _ => none
  | n + 1, e =>
    if e.result = 0 then
      match sendChunks D apduCla apduIns apduP1 data k { e with offset := 0 } with
      | none => none
      | some (.exit e) => some e
      | some (.loop e) => sendAll k n e
    else some e

/-- **`ledger_send_apdu`**; `*psw` is the status word of what it leaves. -/
def ledgerSendApdu (k : ℕ) : Option Exchange :=
  if D.init ≠ 0 then some ⟨[], 0, D.init, 0, []⟩
  else if D.found = false then some ⟨[], 0, -1, -1, []⟩
  else sendAll D apduCla apduIns apduP1 data k k ⟨[], 0, 0, 0, []⟩

end Send

/-! ### The device -/

def payload (apdu : Bytes) : Bytes := apdu.drop 5

def isFirst (apdu : Bytes) : Prop := apdu.getD 2 0 &&& apduP1First ≠ 0

def isLast (apdu : Bytes) : Prop := apdu.getD 2 0 &&& apduP1Last ≠ 0

instance (apdu : Bytes) : Decidable (isFirst apdu) := inferInstanceAs (Decidable (_ ≠ _))

instance (apdu : Bytes) : Decidable (isLast apdu) := inferInstanceAs (Decidable (_ ≠ _))

/-- What a device holds that clears its buffer on a first chunk and appends the data of each one. -/
def held (sent : List Bytes) : Bytes :=
  sent.foldl (fun buffer apdu => if isFirst apdu then payload apdu else buffer ++ payload apdu) []

/-- The device asks to begin again. -/
def Reply.Restarts (r : Reply) : Prop := ∃ out, r = .response out swRestart

/-- **A device that takes commands in chunks**: it acknowledges a chunk that is not the last one, answers the
last one with data, and may ask to begin again instead, but not forever. -/
structure Dongle.TakesChunks (D : Dongle) : Prop where
  init : D.init = 0
  found : D.found = true
  more : ∀ sent apdu, ¬ isLast apdu →
    D.send (sent ++ [apdu]) = .response [] swOk ∨ (D.send (sent ++ [apdu])).Restarts
  last : ∀ sent apdu, isLast apdu →
    (∃ out, out ≠ [] ∧ D.send (sent ++ [apdu]) = .response out swOk) ∨ (D.send (sent ++ [apdu])).Restarts
  finite : ∀ apdus : ℕ → Bytes, ∃ n, ∀ m ≥ n, ¬ (D.send ((List.range m).map apdus)).Restarts

/-! ### What is sent -/

/-- **A pass over the data**: chunks of 250 bytes at most, from the beginning, each with its length, the first one
and no other flagged as the first, the one that ends the data and no other as the last. -/
structure Pass (apduCla apduIns : UInt8) (data : Bytes) (apdus : List Bytes) : Prop where
  begins : apdus.flatMap payload <+: data
  chunk : ∀ i apdu, apdus[i]? = some apdu → ∃ (p1 len : UInt8) (body : Bytes),
    apdu = apduCla :: apduIns :: p1 :: 0 :: len :: body ∧ body.length ≤ 250 ∧ len.toNat = body.length ∧
      (isFirst apdu ↔ i = 0) ∧ (isLast apdu ↔ (apdus.take (i + 1)).flatMap payload = data)

/-- **The whole command is delivered**: the passes send nothing else, the device holds the data at the end, and its
response is returned. -/
structure Delivers (D : Dongle) (apduCla apduIns : UInt8) (data : Bytes) (e : Exchange) : Prop where
  passes : ∃ passes : List (List Bytes), e.sent = passes.flatten ∧ ∀ pass ∈ passes, Pass apduCla apduIns data pass
  held : held e.sent = data
  response : ∃ out, out ≠ [] ∧ D.send e.sent = .response out swOk ∧ e.result = out.length ∧ e.sw = swOk.toNat ∧
    e.out = out

section Packet

variable {apduCla apduIns : UInt8} {data : Bytes} {offset : ℕ}

lemma chunkLength_le (data : Bytes) (offset : ℕ) : chunkLength data offset ≤ 250 := by
  unfold chunkLength
  split <;> omega

lemma chunkLength_pos (h : offset < data.length) : 0 < chunkLength data offset := by
  unfold chunkLength
  split <;> omega

lemma chunkLength_add_le (h : offset < data.length) : offset + chunkLength data offset ≤ data.length := by
  unfold chunkLength
  split <;> omega

lemma payload_packet (apduP1 : UInt8) (offset : ℕ) :
    payload (packet apduCla apduIns apduP1 data offset) = (data.drop offset).take (chunkLength data offset) := rfl

lemma payload_packet_length (apduCla apduIns apduP1 : UInt8) (h : offset < data.length) :
    (payload (packet apduCla apduIns apduP1 data offset)).length = chunkLength data offset := by
  have hle := chunkLength_add_le h
  rw [payload_packet, List.length_take, List.length_drop]
  omega

lemma isFirst_packet : isFirst (packet apduCla apduIns 0 data offset) ↔ offset = 0 := by
  change p1 0 data offset &&& apduP1First ≠ 0 ↔ _
  rw [p1, if_neg (not_not.mpr rfl)]
  by_cases hzero : offset = 0
  · rw [if_pos hzero]
    refine iff_of_true ?_ hzero
    split <;> decide
  · rw [if_neg hzero]
    refine iff_of_false ?_ hzero
    split <;> decide

lemma isLast_packet : isLast (packet apduCla apduIns 0 data offset) ↔
    offset + chunkLength data offset = data.length := by
  change p1 0 data offset &&& apduP1Last ≠ 0 ↔ _
  rw [p1, if_neg (not_not.mpr rfl)]
  by_cases hend : offset + chunkLength data offset = data.length
  · rw [if_pos hend]
    refine iff_of_true ?_ hend
    split <;> decide
  · rw [if_neg hend]
    refine iff_of_false ?_ hend
    split <;> decide

end Packet

section Pass

variable {apduCla apduIns : UInt8} {data : Bytes} {offset : ℕ} {pass sent : List Bytes}

/-- The pass has come to this offset. -/
structure At (apduCla apduIns : UInt8) (data : Bytes) (offset : ℕ) (pass : List Bytes) : Prop where
  ok : Pass apduCla apduIns data pass
  taken : pass.flatMap payload = data.take offset
  first : pass = [] ↔ offset = 0

lemma At.start : At apduCla apduIns data 0 [] where
  ok := ⟨List.nil_prefix, fun i apdu h => by simp at h⟩
  taken := rfl
  first := iff_of_true rfl rfl

lemma take_eq_self_iff {n : ℕ} (h : n ≤ data.length) : data.take n = data ↔ n = data.length := by
  constructor
  · intro heq
    have hlen := congrArg List.length heq
    rw [List.length_take] at hlen
    omega
  · rintro rfl
    exact List.take_length

/-- **The step**: the packet for the chunk at the offset goes on with the pass. -/
lemma At.send (h : At apduCla apduIns data offset pass) (hlt : offset < data.length) :
    At apduCla apduIns data (offset + chunkLength data offset)
      (pass ++ [packet apduCla apduIns 0 data offset]) := by
  have hpos := chunkLength_pos hlt
  have hle := chunkLength_add_le hlt
  have hmax := chunkLength_le data offset
  have htaken : (pass ++ [packet apduCla apduIns 0 data offset]).flatMap payload =
      data.take (offset + chunkLength data offset) := by
    rw [List.flatMap_append, h.taken, List.flatMap_singleton, payload_packet, List.take_add]
  refine ⟨⟨?_, fun i apdu hi => ?_⟩, htaken, iff_of_false (by simp) (by omega)⟩
  · rw [htaken]
    exact List.take_prefix _ _
  by_cases hold : i < pass.length
  · rw [List.getElem?_append_left hold] at hi
    rw [List.take_append_of_le_length hold]
    exact h.ok.chunk i apdu hi
  -- the new packet is the last one
  · have hi' : i = pass.length := by
      have hlen := (List.getElem?_eq_some_iff.mp hi).1
      rw [List.length_append, List.length_singleton] at hlen
      omega
    subst hi'
    rw [List.getElem?_append_right le_rfl, Nat.sub_self] at hi
    obtain rfl := Option.some.inj hi
    have hall : (pass ++ [packet apduCla apduIns 0 data offset]).take (pass.length + 1) =
        pass ++ [packet apduCla apduIns 0 data offset] := List.take_of_length_le (by simp)
    have hbody := payload_packet_length apduCla apduIns 0 hlt
    refine ⟨p1 0 data offset, UInt8.ofNat (chunkLength data offset),
      payload (packet apduCla apduIns 0 data offset), rfl, hbody.trans_le hmax, ?_, ?_, ?_⟩
    · rw [hbody, UInt8.toNat_ofNat']
      omega
    · rw [isFirst_packet, ← h.first, List.length_eq_zero_iff]
    · rw [isLast_packet, hall, htaken, take_eq_self_iff hle]

end Pass

/-! ### One command -/

section Step

variable {D : Dongle} {apduCla apduIns apduP1 : UInt8} {data out : Bytes} {e : Exchange} {sw : UInt16}

lemma sendChunks_restart (hlt : e.offset < data.length)
    (h : D.send (e.sent ++ [packet apduCla apduIns apduP1 data e.offset]) = .response out swRestart) (k : ℕ) :
    sendChunks D apduCla apduIns apduP1 data (k + 1) e =
      some (.loop ⟨e.sent ++ [packet apduCla apduIns apduP1 data e.offset], e.offset, 0, swRestart.toNat, out⟩) := by
  rw [sendChunks, if_pos hlt]
  dsimp only
  rw [h]
  rfl

lemma sendChunks_more (hlt : e.offset < data.length)
    (h : D.send (e.sent ++ [packet apduCla apduIns apduP1 data e.offset]) = .response [] swOk) (k : ℕ) :
    sendChunks D apduCla apduIns apduP1 data (k + 1) e =
      sendChunks D apduCla apduIns apduP1 data k ⟨e.sent ++ [packet apduCla apduIns apduP1 data e.offset],
        e.offset + chunkLength data e.offset, 0, swOk.toNat, []⟩ := by
  rw [sendChunks, if_pos hlt]
  dsimp only
  rw [h]
  rfl

lemma sendChunks_answered (hlt : e.offset < data.length) (hout : out ≠ [])
    (h : D.send (e.sent ++ [packet apduCla apduIns apduP1 data e.offset]) = .response out swOk) (k : ℕ) :
    sendChunks D apduCla apduIns apduP1 data (k + 1) e =
      some (.loop
        ⟨e.sent ++ [packet apduCla apduIns apduP1 data e.offset], e.offset, out.length, swOk.toNat, out⟩) := by
  have hpos : (0 : ℤ) < out.length := by exact_mod_cast List.length_pos_of_ne_nil hout
  rw [sendChunks, if_pos hlt]
  dsimp only
  rw [h]
  dsimp only
  rw [if_neg (by decide), if_neg (not_not.mpr rfl), if_pos hpos]

lemma sendChunks_refused (hlt : e.offset < data.length) (hrestart : sw ≠ swRestart) (hok : sw ≠ swOk)
    (h : D.send (e.sent ++ [packet apduCla apduIns apduP1 data e.offset]) = .response out sw) (k : ℕ) :
    sendChunks D apduCla apduIns apduP1 data (k + 1) e =
      some (.exit
        ⟨e.sent ++ [packet apduCla apduIns apduP1 data e.offset], e.offset, out.length, sw.toNat, out⟩) := by
  rw [sendChunks, if_pos hlt]
  dsimp only
  rw [h]
  dsimp only
  rw [if_neg hrestart, if_pos hok]

lemma sendChunks_failed (hlt : e.offset < data.length) {result : ℤ} (hneg : result < 0)
    (h : D.send (e.sent ++ [packet apduCla apduIns apduP1 data e.offset]) = .failed result hneg) (k : ℕ) :
    sendChunks D apduCla apduIns apduP1 data (k + 1) e =
      some (.exit ⟨e.sent ++ [packet apduCla apduIns apduP1 data e.offset], e.offset, result, e.sw, e.out⟩) := by
  rw [sendChunks, if_pos hlt]
  dsimp only
  rw [h]

end Step

/-! ### The loops -/

section Loops

variable {D : Dongle} {apduCla apduIns : UInt8} {data : Bytes} {before pass : List Bytes} {e : Exchange} {k : ℕ}

/-- The pass has ended, since the device wants to begin again or has answered the last chunk. -/
inductive Ended (D : Dongle) (data : Bytes) (pass : List Bytes) (e : Exchange) : Prop
  | restart (hresult : e.result = 0) (h : (D.send e.sent).Restarts)
  | answered (out : Bytes) (hout : out ≠ []) (hall : pass.flatMap payload = data)
    (h : D.send e.sent = .response out swOk) (hresult : e.result = out.length) (hsw : e.sw = swOk.toNat)
    (hmem : e.out = out)

lemma sendChunks_spec (hD : D.TakesChunks) (hat : At apduCla apduIns data e.offset pass)
    (hsent : e.sent = before ++ pass) (hlt : e.offset < data.length) :
    ∃ e' pass', (∀ k > data.length - e.offset, sendChunks D apduCla apduIns 0 data k e = some (.loop e')) ∧
      e'.sent = before ++ pass' ∧ Pass apduCla apduIns data pass' ∧ pass' ≠ [] ∧ Ended D data pass' e' := by
  generalize hm : data.length - e.offset = m
  induction m using Nat.strong_induction_on generalizing e pass with
  | _ m ih =>
    have hpos := chunkLength_pos hlt
    have hle := chunkLength_add_le hlt
    have hnext := hat.send hlt
    have hne : pass ++ [packet apduCla apduIns 0 data e.offset] ≠ [] := by simp
    have hsent' : e.sent ++ [packet apduCla apduIns 0 data e.offset] =
        before ++ (pass ++ [packet apduCla apduIns 0 data e.offset]) := by rw [hsent, List.append_assoc]
    have hrestart : (D.send (e.sent ++ [packet apduCla apduIns 0 data e.offset])).Restarts →
        ∃ e' pass', (∀ k > m, sendChunks D apduCla apduIns 0 data k e = some (.loop e')) ∧
          e'.sent = before ++ pass' ∧ Pass apduCla apduIns data pass' ∧ pass' ≠ [] ∧ Ended D data pass' e' := by
      rintro ⟨out, hreply⟩
      refine ⟨⟨_, e.offset, 0, swRestart.toNat, out⟩, _, fun k hk => ?_, hsent', hnext.ok, hne,
        .restart rfl ⟨out, hreply⟩⟩
      obtain ⟨k, rfl⟩ := Nat.exists_eq_add_one.mpr (Nat.zero_lt_of_lt hk)
      exact sendChunks_restart hlt hreply k
    by_cases hlast : isLast (packet apduCla apduIns 0 data e.offset)
    · rcases hD.last e.sent _ hlast with ⟨out, hout, hreply⟩ | hreply
      · have hall := hnext.taken
        rw [isLast_packet.mp hlast, List.take_length] at hall
        refine ⟨⟨_, e.offset, _, _, out⟩, _, fun k hk => ?_, hsent', hnext.ok, hne,
          .answered out hout hall hreply rfl rfl rfl⟩
        obtain ⟨k, rfl⟩ := Nat.exists_eq_add_one.mpr (Nat.zero_lt_of_lt hk)
        exact sendChunks_answered hlt hout hreply k
      · exact hrestart hreply
    · rcases hD.more e.sent _ hlast with hreply | hreply
      · have hmore : e.offset + chunkLength data e.offset < data.length :=
          lt_of_le_of_ne hle fun heq => hlast (isLast_packet.mpr heq)
        obtain ⟨e', pass', hrun, hrest⟩ := ih (data.length - (e.offset + chunkLength data e.offset)) (by omega)
          (e := ⟨e.sent ++ [packet apduCla apduIns 0 data e.offset], e.offset + chunkLength data e.offset, 0,
            swOk.toNat, []⟩) hnext hsent' hmore rfl
        refine ⟨e', pass', fun k hk => ?_, hrest⟩
        obtain ⟨k, rfl⟩ := Nat.exists_eq_add_one.mpr (Nat.zero_lt_of_lt hk)
        rw [sendChunks_more hlt hreply]
        exact hrun k (by omega)
      · exact hrestart hreply

/-- What the device holds after a pass is what the pass has sent. -/
lemma held_pass (hpass : Pass apduCla apduIns data pass) (hne : pass ≠ []) :
    held (before ++ pass) = pass.flatMap payload := by
  have hrest : ∀ (as : List Bytes) (buffer : Bytes), (∀ a ∈ as, ¬ isFirst a) →
      as.foldl (fun buffer apdu => if isFirst apdu then payload apdu else buffer ++ payload apdu) buffer =
        buffer ++ as.flatMap payload := by
    intro as
    induction as with
    | nil =>
      intro buffer _
      exact (List.append_nil buffer).symm
    | cons a as ih =>
      intro buffer has
      rw [List.foldl_cons, if_neg (has a List.mem_cons_self), ih _ fun b hb => has b (List.mem_cons_of_mem a hb),
        List.flatMap_cons, List.append_assoc]
  obtain ⟨a, as, rfl⟩ := List.exists_cons_of_ne_nil hne
  have hfirst : isFirst a := by
    obtain ⟨-, -, -, -, -, -, hiff, -⟩ := hpass.chunk 0 a rfl
    exact hiff.mpr rfl
  have hnot : ∀ b ∈ as, ¬ isFirst b := by
    intro b hb
    obtain ⟨i, hi⟩ := List.getElem?_of_mem hb
    obtain ⟨-, -, -, -, -, -, hiff, -⟩ := hpass.chunk (i + 1) b hi
    exact fun h => Nat.succ_ne_zero i (hiff.mp h)
  rw [held, List.foldl_append, List.foldl_cons, if_pos hfirst, hrest as _ hnot, List.flatMap_cons]

lemma ledgerSendApdu_found (hinit : D.init = 0) (hfound : D.found = true) (apduP1 : UInt8) (k : ℕ) :
    ledgerSendApdu D apduCla apduIns apduP1 data k =
      sendAll D apduCla apduIns apduP1 data k k ⟨[], 0, 0, 0, []⟩ := by
  rw [ledgerSendApdu, if_neg (not_not.mpr hinit), if_neg (by simp [hfound])]

/-- The passes come to an end, since the device does not begin again forever. -/
lemma sendAll_spec (hD : D.TakesChunks) (hne : data ≠ []) (hresult : e.result = 0)
    (hpasses : ∃ passes : List (List Bytes), e.sent = passes.flatten ∧
      ∀ pass ∈ passes, Pass apduCla apduIns data pass) :
    ∃ N e', (∀ n ≥ N, ∀ k > data.length, sendAll D apduCla apduIns 0 data k n e = some e') ∧
      Delivers D apduCla apduIns data e' := by
  have hpos : 0 < data.length := List.length_pos_of_ne_nil hne
  have hwf := wellFounded_growing (P := fun sent => (D.send sent).Restarts) hD.finite
  generalize hsent : e.sent = sent at hpasses
  induction sent using hwf.induction generalizing e with
  | _ sent ih =>
    obtain ⟨passes, hflat, hok⟩ := hpasses
    have hat : At apduCla apduIns data ({ e with offset := 0 } : Exchange).offset [] := At.start
    have hsent₀ : ({ e with offset := 0 } : Exchange).sent = sent ++ [] := by simpa using hsent
    obtain ⟨e', pass, hrun, hsent', hpass, hnepass, hended⟩ := sendChunks_spec hD hat hsent₀ hpos
    have hpasses' : ∃ passes : List (List Bytes), e'.sent = passes.flatten ∧
        ∀ pass ∈ passes, Pass apduCla apduIns data pass := by
      refine ⟨passes ++ [pass], ?_, fun p hp => ?_⟩
      · rw [List.flatten_append, List.flatten_singleton, ← hflat, hsent']
      · rcases List.mem_append.mp hp with hp | hp
        · exact hok p hp
        · rwa [List.mem_singleton.mp hp]
    have hstep : ∀ n, ∀ k > data.length, sendAll D apduCla apduIns 0 data k (n + 1) e =
        sendAll D apduCla apduIns 0 data k n e' := by
      intro n k hk
      rw [sendAll, if_pos hresult, hrun k hk]
    cases hended with
    | restart hresult' hrestart =>
      obtain ⟨N, e'', hall, hdelivers⟩ := ih e'.sent ⟨⟨pass, hnepass, hsent'⟩, hrestart⟩ hresult' rfl hpasses'
      refine ⟨N + 1, e'', fun n hn k hk => ?_, hdelivers⟩
      obtain ⟨n, rfl⟩ := Nat.exists_eq_add_one.mpr (Nat.zero_lt_of_lt hn)
      rw [hstep n k hk]
      exact hall n (Nat.le_of_succ_le_succ hn) k hk
    | answered out hout hall hreply hresult' hsw hmem =>
      refine ⟨2, e', fun n hn k hk => ?_, hpasses', ?_, out, hout, hreply, hresult', hsw, hmem⟩
      · obtain ⟨n, rfl⟩ := Nat.exists_eq_add_of_le' hn
        have hdone : e'.result ≠ 0 := by
          rw [hresult']
          exact_mod_cast (List.length_pos_of_ne_nil hout).ne'
        rw [hstep (n + 1) k hk, sendAll, if_neg hdone]
      · rw [hsent', held_pass hpass hnepass, hall]

/-- **Whatever the number of bytes and wherever the device begins again**, `ledger_send_apdu` returns the length of
the response to the last chunk, and the device holds the data. -/
theorem ledgerSendApdu_delivers (hD : D.TakesChunks) (apduCla apduIns : UInt8) (hne : data ≠ [])
    (_hlt : data.length < 2 ^ 31) :
    ∃ K e', (∀ k ≥ K, ledgerSendApdu D apduCla apduIns 0 data k = some e') ∧ Delivers D apduCla apduIns data e' := by
  have hpasses : ∃ passes : List (List Bytes), (⟨[], 0, 0, 0, []⟩ : Exchange).sent = passes.flatten ∧
      ∀ pass ∈ passes, Pass apduCla apduIns data pass := ⟨[], rfl, fun _ h => absurd h List.not_mem_nil⟩
  obtain ⟨N, e', hrun, hdelivers⟩ := sendAll_spec hD hne rfl hpasses
  refine ⟨max N (data.length + 1), e', fun k hk => ?_, hdelivers⟩
  rw [ledgerSendApdu_found hD.init hD.found]
  exact hrun k ((le_max_left _ _).trans hk) k (Nat.lt_of_succ_le ((le_max_right _ _).trans hk))

end Loops

/-- A device that wants to begin again at the second command. -/
def restartingDongle : Dongle where
  init := 0
  initError := ""
  found := true
  send sent :=
    if sent.length = 2 then .response [] swRestart
    else if isLast (sent.getLastD []) then .response [0x2a] swOk
    else .response [] swOk

lemma restartingDongle_takesChunks : restartingDongle.TakesChunks where
  init := rfl
  found := rfl
  more sent apdu h := by
    simp only [restartingDongle, List.getLastD_concat]
    split
    · exact .inr ⟨[], rfl⟩
    · exact .inl rfl
  last sent apdu h := by
    simp only [restartingDongle, List.getLastD_concat]
    split
    · exact .inr ⟨[], rfl⟩
    · exact .inl ⟨[0x2a], List.cons_ne_nil _ _, rfl⟩
  finite apdus := by
    refine ⟨3, fun m hm => ?_⟩
    rintro ⟨out, hout⟩
    simp only [restartingDongle, List.length_map, List.length_range] at hout
    rw [if_neg (by omega)] at hout
    split at hout
    · exact absurd (Reply.response.inj hout).2 (by decide)
    · exact absurd (Reply.response.inj hout).2 (by decide)

/-- Two chunks, the first of which is sent twice. -/
theorem ledgerSendApdu_delivers_again :
    ∃ K e', (∀ k ≥ K, ledgerSendApdu restartingDongle 0xAE 0x04 0 (List.replicate 300 7) k = some e') ∧
      Delivers restartingDongle 0xAE 0x04 (List.replicate 300 7) e' :=
  ledgerSendApdu_delivers restartingDongle_takesChunks 0xAE 0x04 (List.cons_ne_nil _ _)
    (by rw [List.length_replicate]; decide)

end Libaergo.Ledger
