import Libaergo.Conversions
import Libaergo.Socket.Transaction

/-!
# Amounts of transfers (`aergo.c`)

`aergo_transfer_str` turns a text into the bytes of an amount, and `aergo_transfer_int` two numbers into a
text before that: `"%llu.%018llu"`, printed to a buffer of 36 bytes.  The amount that is sent is exact where
no stage cuts a digit that counts (`transfersExactly_iff`).
-/

namespace Libaergo

open Lib

/-! ### The entry points -/

def asyncCommitCall (service : Service) (hs : service = .transfer ∨ service = .contractCall)
    (callback arg : ℕ) (txnHash : Hash) (start : Start) : Call where
  service := service
  callback := some callback
  stream _ := rfl
  wait h := by rcases hs with rfl | rfl <;> cases h
  arg := arg
  returnPtr := none
  returnSize := 0
  txnHash := txnHash
  account := none
  start := start

/-- The same three functions with a callback, which return when the request is sent. -/
def EntryPoint.runAsync (S : Setup) (t : EntryPoint) (w : World) (callback arg a : ℕ) (account : Account)
    (waits : Waits) : Option Returned := do
  match ← t.prepare S w a account waits with
  | .stopped w => return ⟨false, none, w⟩
  | .failed _ w => return ⟨false, none, w⟩
  | .built encoded w =>
    let w := w.call (asyncCommitCall t.service t.service_eq callback arg encoded.txnHash waits.commit.start)
    return ⟨w.returned.getD false, some encoded.txnHash, w⟩

/-- `string_to_bignum` and the transfer of what it left: -1 is refused like a length of zero. -/
def transferStr (value toAccount : Bytes) : Option EntryPoint :=
  (stringToBignum value 16).map fun amount => .transferBignum toAccount (amount.getD [])

/-- `aergo_transfer_str`, or none where the conversion writes outside of its buffers. -/
def aergoTransferStr (S : Setup) (w : World) (receipt fromAccount : ℕ) (account : Account)
    (toAccount value : Bytes) (waits : Waits) : Option Returned :=
  (transferStr value toAccount).bind fun t => t.run S w receipt fromAccount account waits

def aergoTransferStrAsync (S : Setup) (w : World) (callback arg fromAccount : ℕ) (account : Account)
    (toAccount value : Bytes) (waits : Waits) : Option Returned :=
  (transferStr value toAccount).bind fun t => t.runAsync S w callback arg fromAccount account waits

/-- `snprintf(amount_str, sizeof(amount_str), "%" PRIu64 ".%018" PRIu64, integer, decimal)` -/
def amountStr (integer decimal : UInt64) : Bytes :=
  (decText integer.toNat ++ 0x2e :: List.leftpad 18 0x30 (decText decimal.toNat)).take 35

def aergoTransferInt (S : Setup) (w : World) (receipt fromAccount : ℕ) (account : Account)
    (toAccount : Bytes) (integer decimal : UInt64) (waits : Waits) : Option Returned :=
  aergoTransferStr S w receipt fromAccount account toAccount (amountStr integer decimal) waits

def aergoTransferIntAsync (S : Setup) (w : World) (callback arg fromAccount : ℕ) (account : Account)
    (toAccount : Bytes) (integer decimal : UInt64) (waits : Waits) : Option Returned :=
  aergoTransferStrAsync S w callback arg fromAccount account toAccount (amountStr integer decimal) waits

/-! ### Exact transfers -/

/-- The amount that a reader finds in a message. -/
def Encoded.amount (enc : Encoded) : Option Bytes :=
  (decodeTxList (enc.message.drop 5)).bind fun txs =>
    txs.head?.bind fun tx => (decodeTxBody tx.body).map TxBody.amount

/-- Nothing was built, or a message with the amount `n`. -/
def BuildsAmount (prepared : Option Prepared) (R : Returned) (n : ℕ) : Prop :=
  R.value = false ∧ R.txnHash = none ∨
    ∃ encoded w, prepared = some (.built encoded w) ∧ R.txnHash = some encoded.txnHash ∧
      encoded.amount = some (beShort n)

/-- **The transfer of two numbers is exact**: the conversion stays in its buffers, and either nothing is
built or a transaction with the amount `integer` · 10^18 + `decimal`. -/
structure TransfersExactly (integer decimal : UInt64) : Prop where
  inside : ∀ toAccount, transferStr (amountStr integer decimal) toAccount ≠ none
  sync : ∀ {S : Setup} {w : World} {receipt a : ℕ} {account : Account} {toAccount : Bytes} {waits : Waits}
    {t : EntryPoint} {R : Returned}, S.devices.Sized →
    transferStr (amountStr integer decimal) toAccount = some t →
    aergoTransferInt S w receipt a account toAccount integer decimal waits = some R →
    BuildsAmount (t.prepare S (w.handOver receipt) a account waits) R
      (integer.toNat * 10 ^ 18 + decimal.toNat)
  async : ∀ {S : Setup} {w : World} {callback arg a : ℕ} {account : Account} {toAccount : Bytes}
    {waits : Waits} {t : EntryPoint} {R : Returned}, S.devices.Sized →
    transferStr (amountStr integer decimal) toAccount = some t →
    aergoTransferIntAsync S w callback arg a account toAccount integer decimal waits = some R →
    BuildsAmount (t.prepare S w a account waits) R (integer.toNat * 10 ^ 18 + decimal.toNat)

/-! ### The text -/

section Text

variable {integer decimal : UInt64}

lemma decText_length_le (n : UInt64) : (decText n.toNat).length ≤ 20 := by
  have hlt := n.toNat_lt
  exact (decText_length_le_iff (by decide)).mpr (hlt.trans (by norm_num))

/-- The decimals that `snprintf` prints. -/
def printedDecimals (decimal : UInt64) : Bytes := List.leftpad 18 0x30 (decText decimal.toNat)

/-- The decimals that are left of them in the buffer. -/
def keptDecimals (integer decimal : UInt64) : Bytes :=
  (printedDecimals decimal).take (34 - (decText integer.toNat).length)

lemma amountStr_eq (integer decimal : UInt64) :
    amountStr integer decimal = decText integer.toNat ++ 0x2e :: keptDecimals integer decimal := by
  have hlen := decText_length_le integer
  obtain ⟨k, hk⟩ : ∃ k, 35 - (decText integer.toNat).length = k + 1 :=
    ⟨34 - (decText integer.toNat).length, by omega⟩
  have hk' : 34 - (decText integer.toNat).length = k := by omega
  unfold amountStr keptDecimals printedDecimals
  rw [List.take_append, List.take_of_length_le (by omega), hk, hk', List.take_succ_cons]

lemma isDigit_printed {c : UInt8} (h : c ∈ printedDecimals decimal) : IsDigit c := by
  rcases List.mem_append.mp h with h | h
  · rw [List.eq_of_mem_replicate h]
    exact isDigit_zero
  · exact isDigit_decText h

lemma isDigit_kept {c : UInt8} (h : c ∈ keptDecimals integer decimal) : IsDigit c :=
  isDigit_printed (List.mem_of_mem_take h)

@[simp] lemma decNat_printed (decimal : UInt64) : decNat (printedDecimals decimal) = decimal.toNat := by
  unfold printedDecimals List.leftpad
  rw [decNat_append, decNat_zeros, Nat.zero_mul, Nat.zero_add, decNat_decText]

lemma printed_length (decimal : UInt64) :
    (printedDecimals decimal).length = max 18 (decText decimal.toNat).length := by
  unfold printedDecimals
  rw [List.length_leftpad]

lemma idxOf?_amountStr (integer decimal : UInt64) :
    (amountStr integer decimal).idxOf? 0x2e = some (decText integer.toNat).length := by
  have hfront : 0x2e ∉ decText integer.toNat := point_notMem fun c hc => isDigit_decText hc
  have hstr := amountStr_eq integer decimal
  cases h : (amountStr integer decimal).idxOf? 0x2e with
  | none =>
    have hnot := List.idxOf?_eq_none_iff.mp h
    rw [hstr] at hnot
    exact absurd (List.mem_append_right _ List.mem_cons_self) hnot
  | some p =>
    obtain ⟨hsplit, htake, hlt⟩ := idxOf?_point h
    obtain ⟨heq, -⟩ := point_inj hfront htake (hstr.symm.trans hsplit)
    rw [heq, List.length_take]
    congr 1
    omega

/-- The amount that is read of the text. -/
def readDecimals (integer decimal : UInt64) : ℕ := decNat (padDecimals 18 (keptDecimals integer decimal))

lemma readDecimals_lt (integer decimal : UInt64) : readDecimals integer decimal < 10 ^ 18 := by
  have h : ∀ c ∈ padDecimals 18 (keptDecimals integer decimal), IsDigit c :=
    forall_padDecimals.mpr fun c hc => isDigit_kept (List.mem_of_mem_take hc)
  have hlt := decNat_lt h
  rwa [padDecimals_length] at hlt

lemma printed_cut (decimal : UInt64) (k : ℕ) :
    decimal.toNat = decNat ((printedDecimals decimal).take k) * 10 ^ ((printedDecimals decimal).length - k) +
        decNat ((printedDecimals decimal).drop k) ∧
      decNat ((printedDecimals decimal).drop k) < 10 ^ ((printedDecimals decimal).length - k) := by
  have hsplit := decNat_append ((printedDecimals decimal).take k) ((printedDecimals decimal).drop k)
  have hdigits : ∀ c ∈ (printedDecimals decimal).drop k, IsDigit c :=
    fun c hc => isDigit_printed (List.mem_of_mem_drop hc)
  have hlt := decNat_lt hdigits
  rw [List.take_append_drop, decNat_printed, List.length_drop] at hsplit
  rw [List.length_drop] at hlt
  exact ⟨hsplit, hlt⟩

/-- Sixteen digits in front of the point leave room for 18 decimals. -/
lemma readDecimals_of_short (h : (decText integer.toNat).length ≤ 16) :
    readDecimals integer decimal = decNat ((printedDecimals decimal).take 18) := by
  have hlen := printed_length decimal
  have hkept : (keptDecimals integer decimal).take 18 = (printedDecimals decimal).take 18 := by
    unfold keptDecimals
    rw [List.take_take, Nat.min_eq_left (by omega)]
  have hfull : 18 - (keptDecimals integer decimal).length = 0 := by
    unfold keptDecimals
    rw [List.length_take]
    omega
  unfold readDecimals padDecimals
  rw [hkept, hfull, List.replicate_zero, List.append_nil]

lemma readDecimals_of_long (h : (decText integer.toNat).length = 17) :
    readDecimals integer decimal = decNat ((printedDecimals decimal).take 17) * 10 := by
  have hlen := printed_length decimal
  have hkept : keptDecimals integer decimal = (printedDecimals decimal).take 17 := by
    unfold keptDecimals
    rw [h]
  have hcount : ((printedDecimals decimal).take 17).length = 17 := by
    rw [List.length_take]
    omega
  unfold readDecimals padDecimals
  rw [hkept, List.take_of_length_le (by omega), hcount, decNat_append, decNat_zeros, List.length_replicate]
  rfl

/-- **No decimal that counts is cut.** -/
lemma readDecimals_eq_iff (h : integer.toNat < 10 ^ 17) :
    readDecimals integer decimal = decimal.toNat ↔
      decimal.toNat < 10 ^ 18 ∧ (10 ^ 16 ≤ integer.toNat → decimal.toNat % 10 = 0) := by
  have hlt := readDecimals_lt integer decimal
  have hle : (decText integer.toNat).length ≤ 17 := (decText_length_le_iff (by decide)).mpr h
  have hshort : (decText integer.toNat).length ≤ 16 ↔ integer.toNat < 10 ^ 16 :=
    decText_length_le_iff (by decide)
  have hlen := printed_length decimal
  have hsmall : (decText decimal.toNat).length ≤ 18 ↔ decimal.toNat < 10 ^ 18 :=
    decText_length_le_iff (by decide)
  by_cases hd : decimal.toNat < 10 ^ 18
  · have hexact : (printedDecimals decimal).length = 18 := by
      have := hsmall.mpr hd
      omega
    by_cases hi : integer.toNat < 10 ^ 16
    · have hall : readDecimals integer decimal = decimal.toNat := by
        rw [readDecimals_of_short (hshort.mpr hi), List.take_of_length_le hexact.le, decNat_printed]
      exact iff_of_true hall ⟨hd, fun hbig => absurd hi (not_lt.mpr hbig)⟩
    · have hlong : (decText integer.toNat).length = 17 := by
        have hnot : ¬ (decText integer.toNat).length ≤ 16 := fun hle => hi (hshort.mp hle)
        omega
      obtain ⟨hcut, hlast⟩ := printed_cut decimal 17
      have hone : (printedDecimals decimal).length - 17 = 1 := by omega
      rw [hone, Nat.pow_one] at hcut hlast
      rw [readDecimals_of_long hlong]
      constructor
      · intro heq
        exact ⟨hd, fun _ => by omega⟩
      · rintro ⟨-, hzero⟩
        have hzero := hzero (not_lt.mp hi)
        omega
  · refine iff_of_false ?_ fun hboth => hd hboth.1
    omega

lemma readDecimals_pos (hi : integer.toNat = 0) (hd : decimal.toNat ≠ 0) :
    0 < readDecimals integer decimal := by
  have hzero : (decText integer.toNat).length ≤ 16 := by
    rw [hi]
    decide
  rw [readDecimals_of_short hzero]
  by_contra hnone
  have hnone := Nat.eq_zero_of_not_pos hnone
  obtain ⟨hcut, hlast⟩ := printed_cut decimal 18
  rw [hnone, Nat.zero_mul, Nat.zero_add] at hcut
  rw [← hcut, printed_length] at hlast
  rcases Nat.lt_or_ge 18 (decText decimal.toNat).length with hlong | hshort
  · have hsub : max 18 (decText decimal.toNat).length - 18 = (decText decimal.toNat).length - 18 := by omega
    rw [hsub] at hlast
    have hle := (decText_length_le_iff (n := decimal.toNat)
      (k := (decText decimal.toNat).length - 18) (by omega)).mpr hlast
    omega
  · have hsub : max 18 (decText decimal.toNat).length - 18 = 0 := by omega
    rw [hsub] at hlast
    omega

/-- **The bytes of the amount**, of an integer part with at most 17 digits. -/
lemma stringToBignum_amountStr (integer decimal : UInt64) :
    stringToBignum (amountStr integer decimal) 16 =
      if integer.toNat < 10 ^ 17 then
        some (some (beShort (integer.toNat * 10 ^ 18 + readDecimals integer decimal)))
      else none := by
  have hlen := decText_length_le integer
  have hmod : (decText integer.toNat).length % 2 ^ 32 = (decText integer.toNat).length :=
    Nat.mod_eq_of_lt (by omega)
  have hfit : (decText integer.toNat).length ≤ 17 ↔ integer.toNat < 10 ^ 17 :=
    decText_length_le_iff (by decide)
  rw [stringToBignum_point (idxOf?_amountStr integer decimal), hmod]
  by_cases hsmall : integer.toNat < 10 ^ 17
  · have hall : ∀ c ∈ decText integer.toNat ++ padDecimals 18 (keptDecimals integer decimal), IsDigit c :=
      List.forall_mem_append.mpr ⟨fun c hc => isDigit_decText hc,
        forall_padDecimals.mpr fun c hc => isDigit_kept (List.mem_of_mem_take hc)⟩
    have htake : (amountStr integer decimal).take (decText integer.toNat).length = decText integer.toNat := by
      rw [amountStr_eq, List.take_left]
    have hdrop : (amountStr integer decimal).drop ((decText integer.toNat).length + 1) =
        keptDecimals integer decimal := by
      rw [amountStr_eq, ← List.drop_drop, List.drop_left, List.drop_succ_cons, List.drop_zero]
    rw [if_pos (hfit.mpr hsmall), if_pos hsmall, htake, hdrop, readAmount_digits hall, decNat_append,
      padDecimals_length, decNat_decText]
    rfl
  · have hlong : ¬ (decText integer.toNat).length ≤ 17 := fun h => hsmall (hfit.mp h)
    rw [if_neg hlong, if_neg hsmall]

end Text

/-! ### The message -/

section Message

variable {S : Setup} {t : EntryPoint} {w w' : World} {a : ℕ} {account : Account} {waits : Waits}
  {encoded : Encoded} {toAccount amount : Bytes}

/-- A transaction that was built came out of the encoder, with the chain id that was known. -/
lemma prepare_built (h : t.prepare S w a account waits = some (.built encoded w')) :
    ∃ w₁ pubkey w₂ account' e, checkBlockchainIdHash S.env w waits.status = some (true, w₁) ∧
      accountKey S.env S.publicKeys w₁ a account waits.account = some (.ok pubkey, w₂) ∧
      t.encode.run S.sha256 S.devices S.stack w₂.blockchainIdHash t.psize account' = some e ∧
      e.result = .ok encoded := by
  unfold EntryPoint.prepare at h
  split at h
  · cases h
  · obtain ⟨⟨known, w₁⟩, hcheck, h⟩ := Option.bind_eq_some_iff.mp h
    dsimp only at h
    split at h
    · cases h
    · next hknown =>
      obtain rfl := Bool.eq_true_of_not_eq_false hknown
      obtain ⟨⟨key, w₂⟩, hkey, h⟩ := Option.bind_eq_some_iff.mp h
      cases key with
      | error error => cases h
      | ok pubkey =>
        dsimp only at h
        split at h
        · cases h
        · obtain ⟨e, he, h⟩ := Option.bind_eq_some_iff.mp h
          refine ⟨w₁, pubkey, w₂, _, e, hcheck, hkey, he, ?_⟩
          cases hres : e.result with
          | error error =>
            rw [hres] at h
            cases h
          | ok encoded' =>
            rw [hres] at h
            obtain ⟨rfl, -⟩ := Prepared.built.inj (Option.some.inj h)
            rfl

lemma built_amount (hD : S.devices.Sized)
    (h : (EntryPoint.transferBignum toAccount amount).prepare S w a account waits =
      some (.built encoded w')) : encoded.amount = some amount := by
  obtain ⟨-, -, w₂, account', e, -, -, hrun, hok⟩ := prepare_built h
  obtain ⟨sign, txn, tx, htxn, htx, hbody, -⟩ := EncodeCall.read hD hrun hok
  have hamount : txn.amount = amount := by rw [htxn]; rfl
  unfold Encoded.amount
  rw [htx, Option.bind_some, List.head?_cons, Option.bind_some, hbody, Option.map_some]
  exact congrArg some hamount

/-- Where the chain and the account are known, the encoder decides. -/
lemma prepare_of_known {e : Encoding} (account : Account) (waits : Waits) (ht : t.Accepts)
    (hchain : w.blockchainIdHash.toList.head? ≠ some 0)
    (hacc : (w.accounts a).isUpdated = true) (hm : t.mallocs.all S.env.malloc = true)
    (hrun : t.encode.run S.sha256 S.devices S.stack w.blockchainIdHash t.psize
      { account with pubkey := account.pubkey, nonce := (w.accounts a).nonce } = some e)
    (hok : e.result = .ok encoded) :
    ∃ accounts, t.prepare S w a account waits = some (.built encoded { w with accounts := accounts }) := by
  have hcheck : checkBlockchainIdHash S.env w waits.status = some (true, w) := if_neg hchain
  have hkey : accountKey S.env S.publicKeys w a account waits.account = some (.ok account.pubkey, w) :=
    if_pos hacc
  unfold EntryPoint.prepare
  rw [if_neg (not_not.mpr ht), hcheck, Option.bind_eq_bind, Option.bind_some]
  dsimp only
  rw [if_neg (by decide), hkey, Option.bind_eq_bind, Option.bind_some]
  dsimp only
  rw [if_neg (by simp [hm])]
  refine ⟨Function.update w.accounts a ⟨(w.accounts a).isUpdated, e.account.nonce⟩,
    Option.bind_eq_some_iff.mpr ⟨e, hrun, ?_⟩⟩
  rw [hok]
  rfl

lemma run_cases {receipt : ℕ} {R : Returned} (h : t.run S w receipt a account waits = some R) :
    R.value = false ∧ R.txnHash = none ∨
      ∃ encoded w', t.prepare S (w.handOver receipt) a account waits = some (.built encoded w') ∧
        R.txnHash = some encoded.txnHash := by
  obtain ⟨p, hp, h⟩ := Option.bind_eq_some_iff.mp h
  cases p with
  | stopped w₁ =>
    obtain rfl := Option.some.inj h
    exact .inl ⟨rfl, rfl⟩
  | failed error w₁ =>
    obtain rfl := Option.some.inj h
    exact .inl ⟨rfl, rfl⟩
  | built encoded w₁ =>
    obtain ⟨w₂, -, h⟩ := Option.bind_eq_some_iff.mp h
    obtain rfl := Option.some.inj h
    exact .inr ⟨encoded, w₁, hp, rfl⟩

lemma runAsync_cases {callback arg : ℕ} {R : Returned}
    (h : t.runAsync S w callback arg a account waits = some R) :
    R.value = false ∧ R.txnHash = none ∨
      ∃ encoded w', t.prepare S w a account waits = some (.built encoded w') ∧
        R.txnHash = some encoded.txnHash := by
  obtain ⟨p, hp, h⟩ := Option.bind_eq_some_iff.mp h
  cases p with
  | stopped w₁ =>
    obtain rfl := Option.some.inj h
    exact .inl ⟨rfl, rfl⟩
  | failed error w₁ =>
    obtain rfl := Option.some.inj h
    exact .inl ⟨rfl, rfl⟩
  | built encoded w₁ =>
    obtain rfl := Option.some.inj h
    exact .inr ⟨encoded, w₁, hp, rfl⟩

/-- The functions build a transaction with the amount that they are given, or none. -/
lemma buildsAmount_of_cases {n : ℕ} {R : Returned} (hD : S.devices.Sized)
    (h : R.value = false ∧ R.txnHash = none ∨ ∃ encoded w',
      (EntryPoint.transferBignum toAccount (beShort n)).prepare S w a account waits =
        some (.built encoded w') ∧ R.txnHash = some encoded.txnHash) :
    BuildsAmount ((EntryPoint.transferBignum toAccount (beShort n)).prepare S w a account waits) R n := by
  rcases h with h | ⟨encoded, w', hp, hhash⟩
  · exact .inl h
  · exact .inr ⟨encoded, w', hp, hhash, built_amount hD hp⟩

end Message

/-! ### A transfer that is built -/

def keySetup : Setup where
  env := sampleEnv
  sha256 := sha256
  devices := softwareKey
  publicKeys := ⟨.error "no device", fun _ => none⟩
  stack := zeroStack

/-- An instance that knows its chain, and accounts whose state is known. -/
def knownChain : World :=
  { World.start (fun _ => .initial) (fun _ => ⟨true, 7⟩) with blockchainIdHash := sampleChain }

def noWaits : Waits where
  status := ⟨.noRequest, []⟩
  account := ⟨.noRequest, []⟩
  commit := ⟨.noRequest, []⟩

/-- A small amount gets as far as its message; without a request for it, nothing is sent. -/
lemma transfer_built {amount : Bytes} (hpos : 0 < amount.length) (hsmall : amount.length ≤ 16) :
    ∃ R hash, (EntryPoint.transferBignum [] amount).run keySetup knownChain 1 0 (sampleAccount false)
      noWaits = some R ∧ R.txnHash = some hash := by
  have haccepts : (EntryPoint.transferBignum [] amount).Accepts := hpos
  have hrefused : ¬ (EntryPoint.transferBignum [] amount).encode.Refused := Nat.not_lt.mpr hpos
  obtain ⟨e, encoded, hrun, hok⟩ :
      ∃ e enc, (EntryPoint.transferBignum [] amount).encode.run keySetup.sha256 softwareKey zeroStack
        sampleChain 1024 { sampleAccount false with nonce := 7 } = some e ∧ e.result = .ok enc := by
    rw [EncodeCall.run_eq, if_neg hrefused]
    refine softwareKey_ok rfl (EncodeCall.txn_sign ..) ?_
    show amount.length + 0 ≤ 500
    omega
  obtain ⟨accounts, hprep⟩ := prepare_of_known (S := keySetup) (w := knownChain.handOver 1) (a := 0)
    (sampleAccount false) noWaits haccepts (by decide) rfl rfl hrun hok
  refine ⟨⟨false, some encoded.txnHash,
    { knownChain.handOver 1 with accounts := accounts, returned := some false }⟩, _, ?_, rfl⟩
  exact Option.bind_eq_some_iff.mpr ⟨_, hprep, rfl⟩

section Exact

variable {integer decimal : UInt64}

lemma transferStr_eq_some (decimal : UInt64) (h : integer.toNat < 10 ^ 17) (toAccount : Bytes) :
    transferStr (amountStr integer decimal) toAccount = some (.transferBignum toAccount
      (beShort (integer.toNat * 10 ^ 18 + readDecimals integer decimal))) := by
  rw [transferStr, stringToBignum_amountStr, if_pos h, Option.map_some, Option.getD_some]

/-- What is read is what is meant, as far as a transaction is built of it. -/
lemma readDecimals_eq_of_exact (h : TransfersExactly integer decimal) (hi : integer.toNat < 10 ^ 17) :
    readDecimals integer decimal = decimal.toNat := by
  by_contra hne
  have hlt := readDecimals_lt integer decimal
  set n := integer.toNat * 10 ^ 18 + readDecimals integer decimal with hn
  have hpos : n ≠ 0 := by
    intro hzero
    have hizero : integer.toNat = 0 := by omega
    have hdzero : decimal.toNat ≠ 0 := by omega
    have hread := readDecimals_pos hizero hdzero
    omega
  have hlenpos : 0 < (beShort n).length := by
    by_contra hnil
    have hbytes := beNat_beShort n
    rw [List.length_eq_zero_iff.mp (Nat.eq_zero_of_not_pos hnil)] at hbytes
    exact hpos hbytes.symm
  have hlensmall : (beShort n).length ≤ 16 := by
    refine beShort_length_le_iff.mpr ?_
    have hbound : 256 ^ 16 = 2 ^ 128 := by norm_num
    omega
  have ht := transferStr_eq_some decimal hi []
  obtain ⟨R, hash, hR, hhash⟩ := transfer_built hlenpos hlensmall
  have hR : aergoTransferInt keySetup knownChain 1 0 (sampleAccount false) [] integer decimal noWaits =
      some R := by
    rw [aergoTransferInt, aergoTransferStr, ht, Option.bind_some]
    exact hR
  rcases h.sync softwareKey_sized ht hR with ⟨-, hnone⟩ | ⟨encoded', w₁, hp, -, hamount⟩
  · rw [hhash] at hnone
    cases hnone
  · have hamount' := built_amount softwareKey_sized hp
    rw [hamount'] at hamount
    have heq := beShort_inj (Option.some.inj hamount)
    omega

end Exact

/-- **The numbers that are transferred exactly.** -/
theorem transfersExactly_iff (integer decimal : UInt64) :
    TransfersExactly integer decimal ↔
      integer.toNat < 10 ^ 17 ∧ decimal.toNat < 10 ^ 18 ∧
        (10 ^ 16 ≤ integer.toNat → decimal.toNat % 10 = 0) := by
  constructor
  · intro h
    have hi : integer.toNat < 10 ^ 17 := by
      by_contra hlong
      apply h.inside []
      rw [transferStr, stringToBignum_amountStr, if_neg hlong]
      rfl
    exact ⟨hi, (readDecimals_eq_iff hi).mp (readDecimals_eq_of_exact h hi)⟩
  · rintro ⟨hi, hd⟩
    have hread := (readDecimals_eq_iff hi).mpr hd
    have hstr := fun toAccount => transferStr_eq_some decimal hi toAccount
    rw [hread] at hstr
    refine ⟨fun toAccount => ?_, fun hD ht hR => ?_, fun hD ht hR => ?_⟩
    · rw [hstr toAccount]
      exact Option.some_ne_none _
    · rw [hstr] at ht
      obtain rfl := Option.some.inj ht
      rw [aergoTransferInt, aergoTransferStr, hstr, Option.bind_some] at hR
      exact buildsAmount_of_cases hD (run_cases hR)
    · rw [hstr] at ht
      obtain rfl := Option.some.inj ht
      rw [aergoTransferIntAsync, aergoTransferStrAsync, hstr, Option.bind_some] at hR
      exact buildsAmount_of_cases hD (runAsync_cases hR)

/-- **Of 19 decimals the last is cut**: 0 and 10^18 are transferred as 10^17; and 10^17 with its decimals
overruns the buffer. -/
theorem long_decimals_cut :
    stringToBignum (amountStr 0 1000000000000000000) 16 = some (some (beShort (10 ^ 17))) ∧
      ¬ TransfersExactly 0 1000000000000000000 ∧
      stringToBignum (amountStr 100000000000000000 0) 16 = none := by
  refine ⟨by decide +kernel, fun h => ?_, by decide +kernel⟩
  have hread := readDecimals_eq_of_exact h (by decide)
  have hcut : readDecimals 0 1000000000000000000 = 10 ^ 17 := by decide +kernel
  rw [hcut] at hread
  exact absurd hread (by decide)

end Libaergo
