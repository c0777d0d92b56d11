import Libaergo.Ledger.Device
import Libaergo.Ledger.Signing

/-!
# Keys of the Ledger (`ledger.c`)

`ledger_get_account_public_key` sends the derivation path of an account, `m/44'/441'/0'/0/index`, in one command, and
copies 33 bytes of what its array of 43 holds then, whatever the length of the response: the array is zero before, and
the responses, each with its status word, are written to the front of it one over the other.
-/

namespace Libaergo.Ledger

open Lib

/-! ### The functions -/

/-- `copy_be32` on a little-endian machine: the bytes of the number in memory, the last one first. -/
def copyBe32 (source : ℕ) : Bytes := (leBytes 4 source).reverse

/-- `get_account_derivation_path`; the index is an `int` that becomes an `unsigned int`. -/
def getAccountDerivationPath (accountIndex : ℤ) : Bytes :=
  [0x8000002C, 0x800001B9, 0x80000000, 0x00000000, (accountIndex % 2 ^ 32).toNat].flatMap copyBe32

/-- The bytes of a response, which `sendApduDongle` writes to the array of its caller. -/
def Reply.bytes : Reply → Bytes
  | .failed _ _ => []
  | .response out sw => withStatus out sw

/-- What the array of the caller holds behind an exchange without a failure: the responses over each other. -/
def received (D : Dongle) (array : Bytes) (sent : List Bytes) : Bytes :=
  ((List.range sent.length).map fun n => (D.send (sent.take (n + 1))).bytes).foldl overlay array

/-- What `ledger_get_account_public_key` leaves: its result, `account->pubkey`, and the text in `error`. -/
structure Asked where
  value : Bool
  pubkey : Bytes
  error : String

/-- **`ledger_get_account_public_key`** -/
def ledgerGetAccountPublicKey (D : Dongle) (index : ℤ) (pubkey : Bytes) (k : ℕ) : Option Asked :=
  (ledgerSendApdu D 0xAE 0x02 0 (getAccountDerivationPath index) k).map fun e =>
    let checked := checkLedgerResult e.result e.sw D.initError
    ⟨checked.1, if checked.1 then (received D (List.replicate 43 0) e.sent).take 33 else pubkey, checked.2⟩

/-! ### The path -/

section Path

variable {i j : ℤ}

lemma copyBe32_eq (n : ℕ) : copyBe32 n = beBytes 4 n := rfl

def pathPrefix : Bytes := [0x80, 0, 0, 0x2C, 0x80, 0, 0x01, 0xB9, 0x80, 0, 0, 0, 0, 0, 0, 0]

lemma getAccountDerivationPath_eq (i : ℤ) :
    getAccountDerivationPath i = pathPrefix ++ beBytes 4 (i % 2 ^ 32).toNat := by
  have hfixed : [0x8000002C, 0x800001B9, 0x80000000, 0x00000000].flatMap copyBe32 = pathPrefix := by decide
  rw [← hfixed, ← copyBe32_eq]
  simp [getAccountDerivationPath]

lemma getAccountDerivationPath_length (i : ℤ) : (getAccountDerivationPath i).length = 20 := by
  rw [getAccountDerivationPath_eq, List.length_append, beBytes_length]
  rfl

lemma getAccountDerivationPath_inj :
    getAccountDerivationPath i = getAccountDerivationPath j ↔ i % 2 ^ 32 = j % 2 ^ 32 := by
  have hi := Int.emod_nonneg i (show (2 : ℤ) ^ 32 ≠ 0 by decide)
  have hj := Int.emod_nonneg j (show (2 : ℤ) ^ 32 ≠ 0 by decide)
  have hi' := Int.emod_lt_of_pos i (show (0 : ℤ) < 2 ^ 32 by decide)
  have hj' := Int.emod_lt_of_pos j (show (0 : ℤ) < 2 ^ 32 by decide)
  rw [getAccountDerivationPath_eq, getAccountDerivationPath_eq, List.append_cancel_left_eq]
  constructor
  · intro h
    have hnum := congrArg beNat h
    rw [beNat_beBytes, beNat_beBytes, Nat.mod_eq_of_lt (by omega), Nat.mod_eq_of_lt (by omega)] at hnum
    omega
  · intro h
    rw [h]

end Path

/-! ### The key -/

section Key

variable {D : Dongle} {array : Bytes} {sent : List Bytes} {apdu : Bytes}

lemma received_concat (D : Dongle) (array : Bytes) (sent : List Bytes) (apdu : Bytes) :
    received D array (sent ++ [apdu]) = overlay (received D array sent) (D.send (sent ++ [apdu])).bytes := by
  have hlast : (sent ++ [apdu]).take (sent.length + 1) = sent ++ [apdu] := List.take_of_length_le (by simp)
  have hbefore : (List.range sent.length).map (fun n => (D.send ((sent ++ [apdu]).take (n + 1))).bytes) =
      (List.range sent.length).map fun n => (D.send (sent.take (n + 1))).bytes := by
    refine List.map_congr_left fun n hn => ?_
    rw [List.take_append_of_le_length (Nat.succ_le_of_lt (List.mem_range.mp hn))]
  unfold received
  rw [List.length_append, List.length_singleton, List.range_succ, List.map_append, List.foldl_append, hbefore,
    List.map_singleton, hlast]
  rfl

lemma sendable_path (i : ℤ) : getAccountDerivationPath i ≠ [] := by
  apply List.ne_nil_of_length_pos
  rw [getAccountDerivationPath_length]
  decide

/-- **The key of the path**: the device holds the path of the account when it answers the last command of the exchange,
the caller is told true, and the key is what the device has answered. -/
structure KeyOfPath (D : Dongle) (index : ℤ) (asked : Asked) : Prop where
  told : asked.value = true
  answer : ∃ e out K, (∀ k ≥ K, ledgerSendApdu D 0xAE 0x02 0 (getAccountDerivationPath index) k = some e) ∧
    held e.sent = getAccountDerivationPath index ∧ D.send e.sent = .response out swOk ∧
    (33 ≤ out.length → asked.pubkey = out.take 33) ∧
    -- behind a short answer the key goes on with the status word
    (out.length < 33 → asked.pubkey.take (out.length + 2) = (out ++ [0x90, 0x00]).take 33)

/-- **An account gets the key of its own path**, from every device that takes commands, wherever it begins again; no two
accounts have one path. -/
theorem ledgerGetAccountPublicKey_keyOfPath (hD : D.TakesChunks) (index : ℤ) (pubkey : Bytes) :
    (∃ K asked, (∀ k ≥ K, ledgerGetAccountPublicKey D index pubkey k = some asked) ∧ KeyOfPath D index asked) ∧
      ∀ j, getAccountDerivationPath j = getAccountDerivationPath index ↔ j % 2 ^ 32 = index % 2 ^ 32 := by
  refine ⟨?_, fun j => getAccountDerivationPath_inj⟩
  have hpasses : ∃ passes : List (List Bytes), (⟨[], 0, 0, 0, []⟩ : Exchange).sent = passes.flatten ∧
      ∀ pass ∈ passes, Pass 0xAE 0x02 (getAccountDerivationPath index) pass :=
    ⟨[], rfl, fun _ h => absurd h List.not_mem_nil⟩
  obtain ⟨N, e, hrun, hdelivers⟩ := sendAll_spec hD (sendable_path index) rfl hpasses
  obtain ⟨out, hout, hsend, hresult, hsw, hmem⟩ := hdelivers.response
  have hsent : e.sent ≠ [] := by
    intro hnil
    have hheld := hdelivers.held
    rw [hnil] at hheld
    exact sendable_path index hheld.symm
  obtain ⟨before, apdu, hlast⟩ : ∃ before apdu, e.sent = before ++ [apdu] :=
    ⟨_, _, (List.dropLast_append_getLast hsent).symm⟩
  have hchecked : (checkLedgerResult e.result e.sw D.initError).1 = true := by
    rw [checkLedgerResult_eq_true, hresult]
    exact ⟨Int.natCast_nonneg _, hsw⟩
  have hkey : received D (List.replicate 43 0) e.sent =
      overlay (received D (List.replicate 43 0) before) (out ++ [0x90, 0x00]) := by
    rw [hlast] at hsend ⊢
    rw [received_concat, hsend]
    rfl
  have hexchange : ∀ k ≥ max N ((getAccountDerivationPath index).length + 1),
      ledgerSendApdu D 0xAE 0x02 0 (getAccountDerivationPath index) k = some e := by
    intro k hk
    rw [ledgerSendApdu_found hD.init hD.found]
    exact hrun k ((le_max_left _ _).trans hk) k (Nat.lt_of_succ_le ((le_max_right _ _).trans hk))
  refine ⟨max N ((getAccountDerivationPath index).length + 1),
    ⟨true, (received D (List.replicate 43 0) e.sent).take 33, (checkLedgerResult e.result e.sw D.initError).2⟩,
    fun k hk => ?_, rfl, e, out, _, hexchange, hdelivers.held, hsend, fun hlong => ?_, fun hshort => ?_⟩
  · rw [ledgerGetAccountPublicKey, hexchange k hk, Option.map_some]
    dsimp only
    rw [hchecked, if_pos rfl]
  · dsimp only
    rw [hkey, overlay, List.append_assoc, List.take_append_of_le_length hlong]
  · dsimp only
    have htwo : (out ++ [0x90, (0x00 : UInt8)]).length = out.length + 2 := by
      rw [List.length_append]
      rfl
    rw [hkey, overlay, List.take_take, Nat.min_comm, ← List.take_take, ← htwo, List.take_left]

/-- A device whose answer is short, and which begins again. -/
theorem ledgerGetAccountPublicKey_keyOfPath_short :
    (∃ K asked, (∀ k ≥ K, ledgerGetAccountPublicKey restartingDongle 7 (List.replicate 33 0) k = some asked) ∧
        KeyOfPath restartingDongle 7 asked) ∧
      ∀ j, getAccountDerivationPath j = getAccountDerivationPath 7 ↔ j % 2 ^ 32 = 7 % 2 ^ 32 :=
  ledgerGetAccountPublicKey_keyOfPath restartingDongle_takesChunks 7 (List.replicate 33 0)

end Key

/-! ### A device that says nothing -/

section Silent

variable {D : Dongle} {outLength offset : ℕ} {buffer : ℕ → Bytes} {apdu : Bytes}

def silentHid : Hid ℕ := .reading fun _ => .bytes [] (Nat.zero_le _)

lemma lastReply_silent (outLength : ℕ) (buffer : ℕ → Bytes) (before : List Bytes) (hbefore : ∀ a ∈ before, Sendable a)
    (hlow : 2 ≤ apdu.length) (hhigh : apdu.length ≤ 352) (hroom : apdu.length ≤ outLength) (n : ℕ) :
    silentHid.lastReply outLength buffer n (before ++ [apdu]) = takeResponse apdu.length apdu := by
  induction before generalizing n with
  | nil =>
    have hsilent := sendApduHidapi_silent silentHid (writeBlocks_reading _ n _) (silent_reading n) hlow hhigh outLength
      (buffer n)
    rwa [if_pos hroom] at hsilent
  | cons a before ih =>
    have hrest : ∀ as : List Bytes, as ≠ [] → silentHid.lastReply outLength buffer n (a :: as) =
        silentHid.lastReply outLength buffer (sendApduHidapi silentHid n a outLength (buffer n)).1 as := by
      intro as has
      obtain ⟨b, as, rfl⟩ := List.exists_cons_of_ne_nil has
      rfl
    rw [List.cons_append, hrest _ (List.append_ne_nil_of_right_ne_nil _ (List.cons_ne_nil _ _))]
    exact ih (fun b hb => hbefore b (List.mem_cons_of_mem a hb)) _

def pathApdu (index : ℤ) : Bytes := [0xAE, 0x02, 0x03, 0x00, 0x14] ++ getAccountDerivationPath index

lemma packet_path (index : ℤ) : packet 0xAE 0x02 0 (getAccountDerivationPath index) 0 = pathApdu index := by
  have hlen := getAccountDerivationPath_length index
  have hchunk : chunkLength (getAccountDerivationPath index) 0 = 20 := by
    rw [chunkLength, hlen]
    rfl
  have hflags : p1 0 (getAccountDerivationPath index) 0 = 0x03 := by
    rw [p1, hchunk, hlen]
    rfl
  rw [packet, hflags, hchunk, List.drop_zero, List.take_of_length_le hlen.le]
  rfl

/-- The low bytes of the index stand where a response has its status word. -/
lemma pathApdu_eq (index : ℤ) :
    pathApdu index = withStatus ((pathApdu index).take 23) (UInt16.ofNat (index % 2 ^ 16).toNat) := by
  obtain ⟨n, hn⟩ : ∃ n, (index % 2 ^ 32).toNat = n := ⟨_, rfl⟩
  have hbytes : pathApdu index = [0xAE, 0x02, 0x03, 0x00, 0x14] ++ (pathPrefix ++
      [UInt8.ofNat (n / 256 / 256 / 256), UInt8.ofNat (n / 256 / 256), UInt8.ofNat (n / 256), UInt8.ofNat n]) := by
    rw [pathApdu, getAccountDerivationPath_eq, hn]
    rfl
  have hsw : (UInt16.ofNat (index % 2 ^ 16).toNat).toNat = n % 2 ^ 16 := by
    rw [UInt16.toNat_ofNat']
    omega
  have hhigh : UInt8.ofNat (n % 2 ^ 16 / 256) = UInt8.ofNat (n / 256) := by
    apply UInt8.toNat_inj.mp
    rw [UInt8.toNat_ofNat', UInt8.toNat_ofNat']
    omega
  have hlow : UInt8.ofNat (n % 2 ^ 16) = UInt8.ofNat n := by
    apply UInt8.toNat_inj.mp
    rw [UInt8.toNat_ofNat', UInt8.toNat_ofNat']
    omega
  rw [withStatus, hsw, lengthBytes, hhigh, hlow, hbytes]
  rfl

lemma pathApdu_length (index : ℤ) : (pathApdu index).length = 25 := by
  rw [pathApdu, List.length_append, getAccountDerivationPath_length]
  rfl

lemma send_silent (D : Dongle) (buffer : ℕ → Bytes) (index : ℤ) {before : List Bytes}
    (hbefore : ∀ a ∈ before, Sendable a) :
    (D.through silentHid 0 43 buffer).send (before ++ [pathApdu index]) =
      .response ((pathApdu index).take 23) (UInt16.ofNat (index % 2 ^ 16).toNat) := by
  have hlen := pathApdu_length index
  have hreply := takeResponse_withStatus ((pathApdu index).take 23) (UInt16.ofNat (index % 2 ^ 16).toNat)
  rw [← pathApdu_eq] at hreply
  change (silentHid.lastReply 43 buffer 0 (before ++ [pathApdu index])).getD _ = _
  rw [lastReply_silent 43 buffer before hbefore (by omega) (by omega) (by omega), hreply]
  rfl

lemma sendAll_silent (D : Dongle) (buffer : ℕ → Bytes) {index : ℤ} (hlow : index % 2 ^ 16 = 0x9001) (k n : ℕ)
    {e : Exchange} (hsent : ∀ a ∈ e.sent, Sendable a) (hresult : e.result = 0) :
    sendAll (D.through silentHid 0 43 buffer) 0xAE 0x02 0 (getAccountDerivationPath index) k n e = none := by
  induction n generalizing e with
  | zero => rfl
  | succ n ih =>
    rw [sendAll, if_pos hresult]
    cases k with
    | zero => rfl
    | succ k =>
      have hlt : ({ e with offset := 0 } : Exchange).offset < (getAccountDerivationPath index).length := by
        rw [getAccountDerivationPath_length]
        exact Nat.succ_pos 19
      have hreply := send_silent D buffer index hsent
      rw [hlow, ← packet_path] at hreply
      rw [sendChunks_restart hlt hreply]
      refine ih (fun a ha => ?_) rfl
      rcases List.mem_append.mp ha with ha | ha
      · exact hsent a ha
      · obtain rfl := List.mem_singleton.mp ha
        exact sendable_packet _ _ _ _ _

/-- **A key that no device has given.**  If no read comes in time, `ledger_get_account_public_key` reads its own command
as the response: where the low 16 bits of the index are 0x9001 it asks again for ever, where they are 0x9000 it returns
true with the command as the key, and otherwise it returns false. -/
theorem ledgerGetAccountPublicKey_silent (hinit : D.init = 0) (hfound : D.found = true) (buffer : ℕ → Bytes) (index : ℤ)
    (pubkey : Bytes) :
    (index % 2 ^ 16 = 0x9001 →
        ∀ k, ledgerGetAccountPublicKey (D.through silentHid 0 43 buffer) index pubkey k = none) ∧
      (index % 2 ^ 16 ≠ 0x9001 →
        ∃ asked, (∀ k ≥ 2, ledgerGetAccountPublicKey (D.through silentHid 0 43 buffer) index pubkey k = some asked) ∧
          (asked.value = true ↔ index % 2 ^ 16 = 0x9000) ∧
          asked.pubkey = if index % 2 ^ 16 = 0x9000 then pathApdu index ++ List.replicate 8 0 else pubkey) := by
  have hnone : ∀ a ∈ (⟨[], 0, 0, 0, []⟩ : Exchange).sent, Sendable a := fun a ha => absurd ha List.not_mem_nil
  have henter : ∀ k, ledgerSendApdu (D.through silentHid 0 43 buffer) 0xAE 0x02 0 (getAccountDerivationPath index) k =
      sendAll (D.through silentHid 0 43 buffer) 0xAE 0x02 0 (getAccountDerivationPath index) k k ⟨[], 0, 0, 0, []⟩ :=
    fun k => ledgerSendApdu_found (D := D.through silentHid 0 43 buffer) hinit hfound 0 k
  constructor
  · intro hlow k
    rw [ledgerGetAccountPublicKey, henter, sendAll_silent D buffer hlow k k hnone rfl]
    rfl
  intro hlow
  have hsw : ∀ n : ℤ, 0 ≤ n → n < 2 ^ 16 →
      (UInt16.ofNat (index % 2 ^ 16).toNat = UInt16.ofNat n.toNat ↔ index % 2 ^ 16 = n) := by
    intro n hn hlt
    rw [← UInt16.toNat_inj, UInt16.toNat_ofNat', UInt16.toNat_ofNat']
    omega
  have hrestart : UInt16.ofNat (index % 2 ^ 16).toNat ≠ swRestart := fun h =>
    hlow ((hsw 0x9001 (by decide) (by decide)).mp h)
  have hok : UInt16.ofNat (index % 2 ^ 16).toNat = swOk ↔ index % 2 ^ 16 = 0x9000 :=
    hsw 0x9000 (by decide) (by decide)
  have hlen := pathApdu_length index
  have hparts := pathApdu_eq index
  have hlt : (⟨[], 0, 0, 0, []⟩ : Exchange).offset < (getAccountDerivationPath index).length := by
    rw [getAccountDerivationPath_length]
    exact Nat.succ_pos 19
  have hreply := send_silent D buffer index hnone
  have hpacket := packet_path index
  generalize UInt16.ofNat (index % 2 ^ 16).toNat = sw at hrestart hok hparts hreply
  have hcut : ((pathApdu index).take 23).length = 23 := by
    rw [List.length_take, hlen]
    rfl
  rw [← hpacket] at hreply
  -- the exchange is one command, whatever the index
  have hrun : ∀ k ≥ 2, ledgerSendApdu (D.through silentHid 0 43 buffer) 0xAE 0x02 0 (getAccountDerivationPath index) k =
      some ⟨[pathApdu index], 0, 23, sw.toNat, (pathApdu index).take 23⟩ := by
    intro k hk
    obtain ⟨k, rfl⟩ := Nat.exists_eq_add_of_le' hk
    rw [henter, sendAll, if_pos rfl]
    by_cases hswOk : sw = swOk
    · rw [hswOk] at hreply ⊢
      rw [sendChunks_answered hlt (List.ne_nil_of_length_pos (by rw [hpacket]; omega)) hreply, hpacket, hcut]
      dsimp only
      have hpos : ((23 : ℕ) : ℤ) ≠ 0 := by decide
      rw [sendAll, if_neg hpos]
      rfl
    · rw [sendChunks_refused hlt hrestart hswOk hreply, hpacket, hcut]
      rfl
  have hchecked : (checkLedgerResult 23 sw.toNat (D.through silentHid 0 43 buffer).initError).1 = true ↔
      index % 2 ^ 16 = 0x9000 := by
    rw [checkLedgerResult_eq_true, Int.natCast_inj, UInt16.toNat_inj, hok]
    exact and_iff_right (by decide)
  refine ⟨_, fun k hk => by rw [ledgerGetAccountPublicKey, hrun k hk]; rfl, hchecked, ?_⟩
  dsimp only
  by_cases hvalue : index % 2 ^ 16 = 0x9000
  · have hkey : received (D.through silentHid 0 43 buffer) (List.replicate 43 0) [pathApdu index] =
        overlay (List.replicate 43 0) (pathApdu index) := by
      have hone := received_concat (D.through silentHid 0 43 buffer) (List.replicate 43 0) [] (pathApdu index)
      rw [← hpacket] at hparts
      rw [List.nil_append, ← List.nil_append [pathApdu index], ← hpacket, hreply, Reply.bytes, ← hparts, hpacket] at hone
      exact hone
    rw [if_pos (hchecked.mpr hvalue), if_pos hvalue, hkey, overlay, hlen, List.drop_replicate,
      List.take_append, hlen, List.take_of_length_le (by omega)]
    rfl
  · rw [if_neg (fun h => hvalue (hchecked.mp h)), if_neg hvalue]

/-- The account 36864. -/
theorem ledgerGetAccountPublicKey_silent_unplugged :
    ((36864 : ℤ) % 2 ^ 16 = 0x9001 →
        ∀ k, ledgerGetAccountPublicKey (restartingDongle.through silentHid 0 43 fun _ => []) 36864 [] k = none) ∧
      ((36864 : ℤ) % 2 ^ 16 ≠ 0x9001 →
        ∃ asked, (∀ k ≥ 2,
            ledgerGetAccountPublicKey (restartingDongle.through silentHid 0 43 fun _ => []) 36864 [] k = some asked) ∧
          (asked.value = true ↔ (36864 : ℤ) % 2 ^ 16 = 0x9000) ∧
          asked.pubkey = if (36864 : ℤ) % 2 ^ 16 = 0x9000 then pathApdu 36864 ++ List.replicate 8 0 else []) :=
  ledgerGetAccountPublicKey_silent rfl rfl (fun _ => []) 36864 []

end Silent

end Libaergo.Ledger
